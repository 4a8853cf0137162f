import Mathlib
import Rowstore.Mutation
import Rowstore.Scan
import Rowstore.Proofs.Page.Slots
import Rowstore.Proofs.Pool.Lookup
import Rowstore.Proofs.Store.Moves
import Rowstore.Proofs.Store.View

/-!
# What becomes of pages that are acquired

Every operation that needs a page acquires it, and has a guard for it then. It drops the guard, and
with it the hold, or it gives the guard up and keeps the hold. What an operation did with pages, one
after another, is its log. A log is a list of `Handling`s.

* An insertion drops the pages it finds full, and the page that refuses the row. It keeps the page
  that takes the row.
* A deletion drops a page that refuses, and keeps a page it deletes from.
* A scan keeps every page it reads.

The holds after an operation are those before it, changed by the log: `Logs.holds_eq`. A hold is
there or is not, and no guard is counted; so a guard that is dropped ends the hold although the
transaction may have kept the page before.
-/

namespace Rowstore

/-- What happens to a page of a transaction, or to all of them. -/
inductive Handling
  /-- The transaction acquires the page, and has a guard for it. -/
  | take (tx : TxId) (id : PageId)
  /-- A guard is given up, and the hold is kept. -/
  | keep (tx : TxId) (id : PageId)
  /-- A guard is dropped by its owner. -/
  | drop (tx : TxId) (id : PageId)
  /-- A guard is dropped because the page has no free slot. -/
  | full (tx : TxId) (id : PageId)
  /-- A guard is dropped because the page could not be changed, or not be written. -/
  | refused (tx : TxId) (id : PageId)
  /-- A hold is ended without a guard. -/
  | free (tx : TxId) (id : PageId)
  /-- The transaction ends. -/
  | finish (tx : TxId)
deriving DecidableEq

namespace Handling

/-- The holds after a page was handled. -/
def change (holds : List (TxId × PageId)) : Handling → List (TxId × PageId)
  | take tx id => holds.insert (tx, id)
  | keep _ _ => holds
  | drop tx id | full tx id | refused tx id | free tx id => holds.filter fun h => h ≠ (tx, id)
  | finish tx => holds.filter fun h => h.1 ≠ tx

/-- A transaction does not hold a page any longer. -/
def LetsGo (tx : TxId) (id : PageId) : Handling → Prop
  | take _ _ | keep _ _ => False
  | drop tx' id' | full tx' id' | refused tx' id' | free tx' id' => tx' = tx ∧ id' = id
  | finish tx' => tx' = tx

instance (tx : TxId) (id : PageId) (x : Handling) : Decidable (x.LetsGo tx id) := by
  unfold LetsGo
  split <;> infer_instance

theorem mem_filter_ne {holds : List (TxId × PageId)} {tx tx' : TxId} {id id' : PageId} :
    (tx, id) ∈ holds.filter (fun h => h ≠ (tx', id')) ↔
      (tx, id) ∈ holds ∧ ¬ (tx' = tx ∧ id' = id) := by
  rw [List.mem_filter, decide_eq_true_eq, Ne, Prod.mk.injEq, eq_comm (a := tx), eq_comm (a := id)]

theorem mem_change {holds : List (TxId × PageId)} {tx : TxId} {id : PageId} {x : Handling} :
    (tx, id) ∈ change holds x ↔ x = take tx id ∨ ((tx, id) ∈ holds ∧ ¬ x.LetsGo tx id) := by
  cases x with
  | take tx' id' =>
    rw [change, List.mem_insert_iff, Prod.mk.injEq, take.injEq, eq_comm (a := tx),
      eq_comm (a := id)]
    exact or_congr_right (and_iff_left not_false).symm
  | keep tx' id' =>
    refine ⟨fun h => .inr ⟨h, nofun⟩, ?_⟩
    rintro (h | h)
    · cases h
    · exact h.1
  | drop tx' id' | full tx' id' | refused tx' id' | free tx' id' =>
    refine mem_filter_ne.trans ⟨.inr, ?_⟩
    rintro (h | h)
    · cases h
    · exact h
  | finish tx' =>
    rw [change, List.mem_filter, decide_eq_true_eq, ne_comm]
    refine ⟨.inr, ?_⟩
    rintro (h | h)
    · cases h
    · exact h

/-- What an insertion into a table does with pages. One refuses only if the insertion fails. -/
def Inserting (tx : TxId) (table : TableId) (fails : Prop) : Handling → Prop
  | take tx' id | keep tx' id | full tx' id => tx' = tx ∧ id.table = table
  | refused tx' id => tx' = tx ∧ id.table = table ∧ fails
  | drop _ _ | free _ _ | finish _ => False

/-- What a deletion does with pages. One refuses only if the deletion fails. -/
def Deleting (tx : TxId) (fails : Prop) : Handling → Prop
  | take tx' _ | keep tx' _ => tx' = tx
  | refused tx' _ => tx' = tx ∧ fails
  | full _ _ | drop _ _ | free _ _ | finish _ => False

/-- What reading does with pages. -/
def Reading (tx : TxId) : Handling → Prop
  | take tx' _ | keep tx' _ => tx' = tx
  | full _ _ | refused _ _ | drop _ _ | free _ _ | finish _ => False

theorem Inserting.mono {tx : TxId} {table : TableId} {P Q : Prop} (hPQ : P → Q) {x : Handling}
    (h : x.Inserting tx table P) : x.Inserting tx table Q := by
  cases x with
  | take | keep | full => exact h
  | refused tx' id => exact ⟨h.1, h.2.1, hPQ h.2.2⟩
  | drop | free | finish => exact h

theorem Deleting.mono {tx : TxId} {P Q : Prop} (hPQ : P → Q) {x : Handling}
    (h : x.Deleting tx P) : x.Deleting tx Q := by
  cases x with
  | take | keep => exact h
  | refused tx' id => exact ⟨h.1, hPQ h.2⟩
  | full | drop | free | finish => exact h

end Handling

/-- A log leads from one store to another, with handlings of a kind. A guard is given up only for a
page that was acquired. -/
structure Logs (K : Handling → Prop) (s t : Store) (log : List Handling) : Prop where
  holds_eq : t.pool.holds = log.foldl Handling.change s.pool.holds
  kind : ∀ x ∈ log, K x
  taken : ∀ tx id, .keep tx id ∈ log → .take tx id ∈ log

namespace Logs

variable {K L : Handling → Prop} {s t u : Store} {log log' : List Handling} {tx : TxId} {id : PageId}

theorem refl (s : Store) : Logs K s s [] := ⟨rfl, nofun, nofun⟩

/-- Nothing happens to pages if the holds stay as they are. -/
theorem of_holds (h : t.pool.holds = s.pool.holds) : Logs K s t [] := ⟨h, nofun, nofun⟩

theorem trans (h : Logs K s t log) (h' : Logs K t u log') : Logs K s u (log ++ log') where
  holds_eq := by rw [h'.holds_eq, h.holds_eq, List.foldl_append]
  kind := by
    intro x hx
    rcases List.mem_append.1 hx with hx | hx
    · exact h.kind x hx
    · exact h'.kind x hx
  taken := by
    intro tx id hkeep
    rcases List.mem_append.1 hkeep with hkeep | hkeep
    · exact List.mem_append_left _ (h.taken tx id hkeep)
    · exact List.mem_append_right _ (h'.taken tx id hkeep)

theorem mono (h : Logs K s t log) (hKL : ∀ x, K x → L x) : Logs L s t log :=
  ⟨h.holds_eq, fun x hx => hKL x (h.kind x hx), h.taken⟩

/-- Nothing happens to pages after a log. -/
theorem of_eq (h : Logs K s t log) (hu : u.pool.holds = t.pool.holds) : Logs K s u log :=
  ⟨hu.trans h.holds_eq, h.kind, h.taken⟩

/-- The same happens from a store with the same holds. -/
theorem from_eq (h : Logs K t u log) (ht : t.pool.holds = s.pool.holds) : Logs K s u log :=
  ⟨ht ▸ h.holds_eq, h.kind, h.taken⟩

end Logs

namespace Store

variable {s t : Store} {tx : TxId} {id : PageId} {page : Page} {row : Tuple} {f : HeapFile}
  {table : TableId}

/-! ### Acquiring -/

theorem holds_of_acquire (h : s.acquire tx id = .ok (page, t)) :
    t.pool.holds = s.pool.holds.insert (tx, id) := by
  rcases acquire_cases h with ⟨-, rfl⟩ | ⟨f, pool, -, -, -, hload, rfl⟩
  · rfl
  · show (pool.hold tx id).holds = _
    rw [Pool.hold, Pool.holds_of_load hload]

/-- A page that is acquired stays held if its guard is given up. -/
theorem logs_keep {K : Handling → Prop} (h : s.acquire tx id = .ok (page, t))
    (htake : K (.take tx id)) (hkeep : K (.keep tx id)) :
    Logs K s t [.take tx id, .keep tx id] where
  holds_eq := holds_of_acquire h
  kind := by
    rintro x (_ | ⟨_, _ | ⟨_, ⟨⟩⟩⟩)
    · exact htake
    · exact hkeep
  taken := by
    rintro tx' id' (_ | ⟨_, _ | ⟨_, ⟨⟩⟩⟩)
    exact List.mem_cons_self

/-- A page that is acquired is let go when its guard is dropped. -/
theorem logs_release {K : Handling → Prop} (h : s.acquire tx id = .ok (page, t)) {x : Handling}
    (hx : ∀ holds, Handling.change holds x = holds.filter fun h => h ≠ (tx, id))
    (hdrop : ∀ tx' id', x ≠ .keep tx' id') (htake : K (.take tx id)) (hkind : K x) :
    Logs K s (t.release tx id) [.take tx id, x] where
  holds_eq := by
    show (t.pool.release tx id).holds = Handling.change (Handling.change s.pool.holds _) x
    rw [hx, Pool.release, holds_of_acquire h]
    rfl
  kind := by
    rintro y (_ | ⟨_, _ | ⟨_, ⟨⟩⟩⟩)
    · exact htake
    · exact hkind
  taken := by
    rintro tx' id' (_ | ⟨_, _ | ⟨_, ⟨⟩⟩⟩)
    exact absurd rfl (hdrop tx' id')

/-! ### Insertions -/

/-- What storing a row in a page does with the page. -/
def pageLog (s : Store) (tx : TxId) (row : Tuple) (id : PageId) : List Handling :=
  match s.acquire tx id with
  | .error _ => []
  | .ok (page, _) =>
    if page.freeCount = 0 then [.take tx id, .full tx id]
    else match page.insert row with
      | .error _ => [.take tx id, .refused tx id]
      | .ok _ => [.take tx id, .keep tx id]

/-- What looking for a free slot does with the pages that it looks at. -/
def firstFitLog (s : Store) (tx : TxId) (row : Tuple) (table : TableId) (first : Nat) :
    Nat → List Handling
  | 0 => []
  | pages + 1 => s.pageLog tx row ⟨table, first⟩ ++
    match s.insertIntoPage tx row ⟨table, first⟩ with
    | (.ok none, t) => t.firstFitLog tx row table (first + 1) pages
    | _ => []

/-- What storing a row in a page that is added does with that page. -/
def newPageLog (s : Store) (tx : TxId) (row : Tuple) (file : HeapFile) : List Handling :=
  match file.appendPage s.disk with
  | .error _ => []
  | .ok (new, disk) =>
    match { s with disk }.insertIntoPage tx row new with
    | (.ok (some page), t) =>
      match file.writePage t.disk page with
      | .error _ => [.take tx new, .refused tx new]
      | .ok _ => [.take tx new, .keep tx new]
    | _ => { s with disk }.pageLog tx row new

/-- What rounds of looking for a free slot, and adding a page, do with pages. -/
def roundsLog (s : Store) (tx : TxId) (row : Tuple) (file : HeapFile) : Nat → List Handling
  | 0 => []
  | rounds + 1 =>
    match file.pageCount s.disk with
    | .error _ => []
    | .ok count => s.firstFitLog tx row file.table 0 count ++
      match s.insertFirstFit tx row file.table 0 count with
      | (.ok none, t) => t.newPageLog tx row file ++
        match t.insertIntoNewPage tx row file with
        | (.ok none, u) => u.roundsLog tx row file rounds
        | _ => []
      | _ => []

/-- What storing a row in a file does with pages. -/
def fileInsertLog (s : Store) (tx : TxId) (file : HeapFile) (row : Tuple) : List Handling :=
  match row.checkStorable file.schema with
  | .error _ => []
  | .ok () => s.roundsLog tx row file (s.pool.frames.length + 1)

/-- What storing a row in a table does with pages. -/
def insertLog (s : Store) (tx : TxId) (table : TableId) (row : Tuple) : List Handling :=
  match s.catalog.file table with
  | .error _ => []
  | .ok file => s.fileInsertLog tx file row

/-- The operation failed. -/
def Fails {σ α : Type} (o : Outcome σ α) : Prop := ∃ cause, o.1 = .error cause

theorem logs_insertIntoPage (s : Store) (tx : TxId) (row : Tuple) (id : PageId) :
    Logs (Handling.Inserting tx id.table (Fails (s.insertIntoPage tx row id))) s
      (s.insertIntoPage tx row id).2 (s.pageLog tx row id) := by
  unfold pageLog insertIntoPage
  cases hacquire : s.acquire tx id with
  | error cause => exact .refl s
  | ok given =>
    obtain ⟨page, t⟩ := given
    dsimp only
    split
    · exact logs_release hacquire (fun _ => rfl) nofun ⟨rfl, rfl⟩ ⟨rfl, rfl⟩
    · cases hinsert : page.insert row with
      | error cause =>
        exact logs_release hacquire (fun _ => rfl) nofun ⟨rfl, rfl⟩ ⟨rfl, rfl, cause, rfl⟩
      | ok stored => exact (logs_keep hacquire ⟨rfl, rfl⟩ ⟨rfl, rfl⟩).of_eq rfl

theorem logs_insertFirstFit (s : Store) (tx : TxId) (row : Tuple) (table : TableId)
    (first pages : Nat) :
    Logs (Handling.Inserting tx table (Fails (s.insertFirstFit tx row table first pages))) s
      (s.insertFirstFit tx row table first pages).2 (s.firstFitLog tx row table first pages) := by
  induction pages generalizing s first with
  | zero => exact .refl s
  | succ pages ih =>
    have hpage := s.logs_insertIntoPage tx row ⟨table, first⟩
    unfold firstFitLog insertFirstFit
    generalize s.insertIntoPage tx row ⟨table, first⟩ = o at hpage ⊢
    obtain ⟨cause | (_ | stored), t⟩ := o
    · exact (hpage.trans (.refl t)).mono fun x => Handling.Inserting.mono fun _ => ⟨cause, rfl⟩
    · exact (hpage.mono fun x => Handling.Inserting.mono nofun).trans (ih t (first + 1))
    · exact (hpage.trans (.refl t)).mono fun x => Handling.Inserting.mono nofun

/-- A page that takes a row was acquired. -/
theorem insertIntoPage_eq_some (h : s.insertIntoPage tx row id = (.ok (some page), t)) :
    ∃ found record u, s.acquire tx id = .ok (found, u) ∧ found.freeCount ≠ 0 ∧
      found.insert row = .ok (record, page) ∧ t = u.put page := by
  rcases s.insertIntoPage_cases tx row id with ⟨cause, -, heq⟩ | ⟨found, u, hacquire, hcases⟩
  · cases heq.symm.trans h
  · rcases hcases with ⟨-, heq⟩ | ⟨cause, -, -, heq⟩ | ⟨record, filled, hfree, hinsert, heq⟩
    · cases heq.symm.trans h
    · cases heq.symm.trans h
    · cases heq.symm.trans h
      exact ⟨found, record, u, hacquire, hfree, hinsert, rfl⟩

theorem logs_insertIntoNewPage (s : Store) (tx : TxId) (row : Tuple) (f : HeapFile) :
    Logs (Handling.Inserting tx f.table (Fails (s.insertIntoNewPage tx row f))) s
      (s.insertIntoNewPage tx row f).2 (s.newPageLog tx row f) := by
  unfold newPageLog insertIntoNewPage
  cases happend : f.appendPage s.disk with
  | error cause => exact .refl s
  | ok added =>
    obtain ⟨new, disk⟩ := added
    have htable : new.table = f.table := by
      obtain ⟨-, -, rfl, -⟩ := HeapFile.appendPage_eq_ok_iff.1 happend
      rfl
    have hpage := ({ s with disk }.logs_insertIntoPage tx row new).from_eq (s := s) rfl
    rw [htable] at hpage
    dsimp only
    cases hinsert : { s with disk }.insertIntoPage tx row new with
    | mk result t =>
      rw [hinsert] at hpage
      match result with
      | .error cause =>
        exact hpage.mono fun x => Handling.Inserting.mono fun _ => ⟨cause, rfl⟩
      | .ok none => exact hpage.mono fun x => Handling.Inserting.mono nofun
      | .ok (some page) =>
        obtain ⟨given, record, u, hacquire, -, -, rfl⟩ := insertIntoPage_eq_some hinsert
        simp only [Outcome.andThen_ok]
        cases hwrite : f.writePage (u.put page).disk page with
        | error cause =>
          have hrelease := logs_release (K := Handling.Inserting tx f.table True) hacquire
            (x := .refused tx new) (fun _ => rfl) nofun ⟨rfl, htable⟩ ⟨rfl, htable, trivial⟩
          have hsame : ((u.put page).release tx new).pool.holds =
              (u.release tx new).pool.holds := rfl
          exact ((hrelease.of_eq hsame).from_eq (s := s) rfl).mono
            fun x => Handling.Inserting.mono fun _ => ⟨cause, rfl⟩
        | ok written =>
          obtain ⟨page, disk⟩ := written
          have hkeep := logs_keep (K := Handling.Inserting tx f.table False) hacquire ⟨rfl, htable⟩
            ⟨rfl, htable⟩
          exact ((hkeep.from_eq (s := s) rfl).mono fun x => Handling.Inserting.mono nofun).of_eq rfl

theorem logs_insertWithin (s : Store) (tx : TxId) (row : Tuple) (f : HeapFile) (rounds : Nat) :
    Logs (Handling.Inserting tx f.table (Fails (s.insertWithin tx row f rounds))) s
      (s.insertWithin tx row f rounds).2 (s.roundsLog tx row f rounds) := by
  induction rounds generalizing s with
  | zero => exact .refl s
  | succ rounds ih =>
    unfold roundsLog insertWithin
    cases hcount : f.pageCount s.disk with
    | error cause => exact .refl s
    | ok count =>
      have hfit := s.logs_insertFirstFit tx row f.table 0 count
      dsimp only
      generalize s.insertFirstFit tx row f.table 0 count = o at hfit ⊢
      obtain ⟨cause | (_ | id), t⟩ := o
      · exact (hfit.trans (.refl t)).mono fun x => Handling.Inserting.mono fun _ => ⟨cause, rfl⟩
      · refine (hfit.mono fun x => Handling.Inserting.mono nofun).trans ?_
        have hnew := t.logs_insertIntoNewPage tx row f
        simp only [Outcome.andThen_ok]
        generalize t.insertIntoNewPage tx row f = o at hnew ⊢
        obtain ⟨cause | (_ | id), u⟩ := o
        · exact (hnew.trans (.refl u)).mono fun x => Handling.Inserting.mono fun _ => ⟨cause, rfl⟩
        · exact (hnew.mono fun x => Handling.Inserting.mono nofun).trans (ih u)
        · exact (hnew.trans (.refl u)).mono fun x => Handling.Inserting.mono nofun
      · exact (hfit.trans (.refl t)).mono fun x => Handling.Inserting.mono nofun

theorem logs_insertIntoFile (s : Store) (tx : TxId) (f : HeapFile) (row : Tuple) :
    Logs (Handling.Inserting tx f.table (Fails (s.insertIntoFile tx f row))) s
      (s.insertIntoFile tx f row).2 (s.fileInsertLog tx f row) := by
  unfold fileInsertLog insertIntoFile
  cases row.checkStorable f.schema with
  | error cause => exact .refl s
  | ok _ => exact s.logs_insertWithin tx row f (s.pool.frames.length + 1)

theorem logs_insertRow (s : Store) (tx : TxId) (table : TableId) (row : Tuple) :
    Logs (Handling.Inserting tx table (Fails (s.insertRow tx table row))) s
      (s.insertRow tx table row).2 (s.insertLog tx table row) := by
  unfold insertLog insertRow
  cases hf : s.catalog.file table with
  | error cause => exact .refl s
  | ok f =>
    have hfile := s.logs_insertIntoFile tx f row
    rw [Catalog.table_of_file hf] at hfile
    dsimp only
    generalize s.insertIntoFile tx f row = o at hfile ⊢
    obtain ⟨cause | id, t⟩ := o
    · exact hfile.mono fun x => Handling.Inserting.mono fun _ => ⟨cause, rfl⟩
    · exact (hfile.mono fun x => Handling.Inserting.mono nofun).of_eq rfl

/-! ### The page that takes a row -/

theorem keep_of_insertIntoPage (h : s.insertIntoPage tx row id = (.ok (some page), t)) :
    page.id = id ∧ .keep tx id ∈ s.pageLog tx row id := by
  obtain ⟨found, record, u, hacquire, hfree, hinsert, -⟩ := insertIntoPage_eq_some h
  refine ⟨(Page.id_of_insert hinsert).trans (id_of_acquire hacquire), ?_⟩
  simp [pageLog, hacquire, hfree, hinsert]

theorem keep_of_insertFirstFit {first pages : Nat}
    (h : s.insertFirstFit tx row table first pages = (.ok (some id), t)) :
    .keep tx id ∈ s.firstFitLog tx row table first pages := by
  induction pages generalizing s first with
  | zero => cases h
  | succ pages ih =>
    rw [insertFirstFit] at h
    rw [firstFitLog]
    obtain ⟨found, u, hpage, h⟩ := Outcome.andThen_eq_ok_iff.1 h
    cases found with
    | none =>
      rw [hpage]
      exact List.mem_append_right _ (ih h)
    | some stored =>
      obtain ⟨hid, hkeep⟩ := keep_of_insertIntoPage hpage
      cases h
      rw [hid]
      exact List.mem_append_left _ hkeep

theorem keep_of_insertIntoNewPage
    (h : s.insertIntoNewPage tx row f = (.ok (some id), t)) :
    .keep tx id ∈ s.newPageLog tx row f := by
  unfold insertIntoNewPage at h
  unfold newPageLog
  cases happend : f.appendPage s.disk with
  | error cause =>
    rw [happend] at h
    cases h
  | ok added =>
    obtain ⟨new, disk⟩ := added
    rw [happend] at h
    dsimp only at h ⊢
    obtain ⟨found, u, hpage, h⟩ := Outcome.andThen_eq_ok_iff.1 h
    cases found with
    | none => cases h
    | some stored =>
      dsimp only at h
      simp only [hpage]
      cases hwrite : f.writePage u.disk stored with
      | error cause =>
        rw [hwrite] at h
        cases h
      | ok written =>
        rw [hwrite] at h
        cases h
        simp

theorem keep_of_insertWithin {rounds : Nat} (h : s.insertWithin tx row f rounds = (.ok id, t)) :
    .keep tx id ∈ s.roundsLog tx row f rounds := by
  induction rounds generalizing s with
  | zero => cases h
  | succ rounds ih =>
    unfold insertWithin at h
    unfold roundsLog
    cases hcount : f.pageCount s.disk with
    | error cause =>
      rw [hcount] at h
      cases h
    | ok count =>
      rw [hcount] at h
      dsimp only at h ⊢
      obtain ⟨found, u, hfit, h⟩ := Outcome.andThen_eq_ok_iff.1 h
      cases found with
      | some found =>
        cases h
        exact List.mem_append_left _ (keep_of_insertFirstFit hfit)
      | none =>
        rw [hfit]
        refine List.mem_append_right _ ?_
        obtain ⟨found, v, hnew, h⟩ := Outcome.andThen_eq_ok_iff.1 h
        cases found with
        | some found =>
          cases h
          exact List.mem_append_left _ (keep_of_insertIntoNewPage hnew)
        | none =>
          simp only [hnew]
          exact List.mem_append_right _ (ih h)

/-- The page that takes a row is kept. -/
theorem keep_of_insertIntoFile (h : s.insertIntoFile tx f row = (.ok id, t)) :
    .keep tx id ∈ s.fileInsertLog tx f row := by
  unfold insertIntoFile at h
  unfold fileInsertLog
  cases hstorable : row.checkStorable f.schema with
  | error cause =>
    rw [hstorable] at h
    cases h
  | ok _ =>
    rw [hstorable] at h
    exact keep_of_insertWithin h

/-! ### Deletions -/

/-- What deleting a row of a file does with the page it was on. -/
def fileDeleteLog (s : Store) (tx : TxId) (file : HeapFile) (row : Tuple) : List Handling :=
  match row.record with
  | none => []
  | some record =>
    if record.page.table ≠ file.table then []
    else match file.pageCount s.disk with
      | .error _ => []
      | .ok count =>
        if record.page.number ≥ count then []
        else match s.acquire tx record.page with
          | .error _ => []
          | .ok (page, _) =>
            match page.delete row with
            | .error _ => [.take tx record.page, .refused tx record.page]
            | .ok _ => [.take tx record.page, .keep tx record.page]

/-- What deleting a row does with the page it was on. -/
def deleteLog (s : Store) (tx : TxId) (row : Tuple) : List Handling :=
  match row.record with
  | none => []
  | some record =>
    match s.catalog.file record.page.table with
    | .error _ => []
    | .ok file => s.fileDeleteLog tx file row

theorem logs_deleteFromFile (s : Store) (tx : TxId) (f : HeapFile) (row : Tuple) :
    Logs (Handling.Deleting tx (Fails (s.deleteFromFile tx f row))) s
      (s.deleteFromFile tx f row).2 (s.fileDeleteLog tx f row) := by
  unfold fileDeleteLog deleteFromFile
  cases row.record with
  | none => exact .refl s
  | some record =>
    dsimp only
    split_ifs
    · exact .refl s
    · cases f.pageCount s.disk with
      | error cause => exact .refl s
      | ok count =>
        dsimp only
        split_ifs
        · exact .refl s
        · cases hacquire : s.acquire tx record.page with
          | error cause => exact .refl s
          | ok given =>
            obtain ⟨page, t⟩ := given
            dsimp only
            cases page.delete row with
            | error cause =>
              exact logs_release hacquire (fun _ => rfl) nofun rfl ⟨rfl, cause, rfl⟩
            | ok left =>
              have hkeep := logs_keep (K := Handling.Deleting tx False) hacquire rfl rfl
              exact (hkeep.mono fun x => Handling.Deleting.mono nofun).of_eq rfl

/-- The page that a row is deleted from is kept. -/
theorem keep_of_deleteFromFile (h : s.deleteFromFile tx f row = (.ok id, t)) :
    .keep tx id ∈ s.fileDeleteLog tx f row := by
  rcases s.deleteFromFile_cases tx f row with ⟨cause, heq⟩ |
    ⟨record, count, page, u, hrecord, htable, hcount, hnumber, hacquire, hcases⟩
  · cases heq.symm.trans h
  · rcases hcases with ⟨cause, -, heq⟩ | ⟨left, hdelete, heq⟩
    · cases heq.symm.trans h
    · cases heq.symm.trans h
      simp [fileDeleteLog, hrecord, htable, hcount, hnumber, hacquire, hdelete]

theorem logs_deleteRow (s : Store) (tx : TxId) (row : Tuple) :
    Logs (Handling.Deleting tx (Fails (s.deleteRow tx row))) s (s.deleteRow tx row).2
      (s.deleteLog tx row) := by
  unfold deleteLog deleteRow
  cases row.record with
  | none => exact .refl s
  | some record =>
    dsimp only
    cases s.catalog.file record.page.table with
    | error cause => exact .refl s
    | ok f =>
      have hfile := s.logs_deleteFromFile tx f row
      dsimp only
      generalize s.deleteFromFile tx f row = o at hfile ⊢
      obtain ⟨cause | id, t⟩ := o
      · exact hfile.mono fun x => Handling.Deleting.mono fun _ => ⟨cause, rfl⟩
      · exact (hfile.mono fun x => Handling.Deleting.mono nofun).of_eq rfl

end Store

/-! ### Scans -/

namespace Scan

variable {s t : Store} {scan : Scan}

/-- What reading a page does with it. -/
def loadLog (scan : Scan) (s : Store) (page : Nat) : List Handling :=
  match s.acquire scan.tx ⟨scan.file.table, page⟩ with
  | .error _ => []
  | .ok _ => [.take scan.tx ⟨scan.file.table, page⟩, .keep scan.tx ⟨scan.file.table, page⟩]

/-- What going to the first page does with it. -/
def startLog (scan : Scan) (s : Store) : List Handling :=
  match scan.file.pageCount s.disk with
  | .error _ => []
  | .ok pageCount => if pageCount = 0 then [] else scan.loadLog s 0

/-- What going on to the next page with rows does with the pages on the way. -/
def seekLog (scan : Scan) (s : Store) : Nat → List Handling
  | 0 => []
  | pages + 1 =>
    let scan := { scan with page := scan.page + 1 }
    scan.loadLog s scan.page ++
      match scan.load s scan.page with
      | (.ok [], t) => { scan with rest := some [] }.seekLog t pages
      | _ => []

/-- What looking for another row does with pages. -/
def hasNextLog (scan : Scan) (s : Store) : List Handling :=
  match scan.rest with
  | some [] => scan.seekLog s (scan.pageCount - (scan.page + 1))
  | none | some (_ :: _) => []

theorem logs_load (scan : Scan) (s : Store) (page : Nat) :
    Logs (Handling.Reading scan.tx) s (scan.load s page).2 (scan.loadLog s page) := by
  unfold loadLog load
  cases hacquire : s.acquire scan.tx ⟨scan.file.table, page⟩ with
  | error cause => exact .refl s
  | ok given =>
    obtain ⟨read, t⟩ := given
    exact Store.logs_keep hacquire rfl rfl

theorem logs_start (scan : Scan) (s : Store) :
    Logs (Handling.Reading scan.tx) s (scan.start s).2.2 (scan.startLog s) := by
  unfold startLog start
  cases scan.file.pageCount s.disk with
  | error cause => exact .refl s
  | ok pageCount =>
    dsimp only
    split_ifs
    · exact .refl s
    · have hload := logs_load { scan with page := 0, pageCount } s 0
      generalize load { scan with page := 0, pageCount } s 0 = o at hload ⊢
      obtain ⟨cause | rows, t⟩ := o
      · exact hload
      · exact hload

theorem logs_seek (scan : Scan) (s : Store) (pages : Nat) :
    Logs (Handling.Reading scan.tx) s (scan.seek s pages).2.2 (scan.seekLog s pages) := by
  induction pages generalizing scan s with
  | zero => exact .refl s
  | succ pages ih =>
    have hload := logs_load { scan with page := scan.page + 1 } s (scan.page + 1)
    unfold seekLog seek
    dsimp only
    generalize load { scan with page := scan.page + 1 } s (scan.page + 1) = o at hload ⊢
    obtain ⟨cause | (_ | ⟨row, rows⟩), t⟩ := o
    · exact hload.trans (.refl t)
    · exact hload.trans (ih { scan with page := scan.page + 1, rest := some [] } t)
    · exact hload.trans (.refl t)

theorem logs_hasNext (scan : Scan) (s : Store) :
    Logs (Handling.Reading scan.tx) s (scan.hasNext s).2.2 (scan.hasNextLog s) := by
  unfold hasNextLog hasNext
  match scan.rest with
  | none => exact .refl s
  | some (_ :: _) => exact .refl s
  | some [] => exact scan.logs_seek s _

/-- Taking a row reads the pages that looking for it reads. -/
theorem logs_next (scan : Scan) (s : Store) :
    Logs (Handling.Reading scan.tx) s (scan.next s).2.2 (scan.hasNextLog s) := by
  have hlook := scan.logs_hasNext s
  unfold next
  generalize scan.hasNext s = o at hlook ⊢
  obtain ⟨cause | more, scan', t⟩ := o
  · exact hlook
  · simp only [Outcome.andThen_ok]
    split
    · exact hlook
    · exact hlook

end Scan

end Rowstore
