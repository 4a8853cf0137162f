import Mathlib
import Rowstore.Proofs.Store.Mutation
import Rowstore.Proofs.Store.Scans

/-!
# Runs

Runs of operations on the pages of a store, by any transactions and in any order. A run starts in a
store with nothing in memory, `Store.Initial`, and the tables stay the same.

* `Store.Allows` says what an operation can do to the view of a store, with what result. It is the
  only place where the operations are taken apart: `Store.Backed.step`.
* A file must have fewer pages than there are page numbers when an operation adds one to it,
  `Store.Counts`. Then the invariant of a store is kept along the whole of a run,
  `Store.Backed.run`, and a sound store stays sound, `Store.Sound.run`.
-/

namespace Rowstore

/-- A question that a reader asks of a scan. -/
inductive ScanMove
  | start
  | rewind
  | hasNext
  | next
deriving DecidableEq

/-- An operation on the pages of a store. -/
inductive Action
  /-- A page is given to a transaction. -/
  | acquire (tx : TxId) (id : PageId)
  /-- A transaction does not hold a page any longer. -/
  | release (tx : TxId) (id : PageId)
  | insert (tx : TxId) (table : TableId) (row : Tuple) (complete : row.Complete)
  | delete (tx : TxId) (row : Tuple)
  | flush (id : PageId)
  | flushAll
  | discard (id : PageId)
  /-- A transaction commits, or aborts. -/
  | complete (tx : TxId) (commit : Bool)
  /-- A page is added to the file of a table. -/
  | append (table : TableId)
  /-- A scan is moved. It may have been anywhere before that. -/
  | scan (scan : Scan) (move : ScanMove)
deriving DecidableEq

namespace Action

/-- The transaction that inserts or deletes with an operation. -/
def mutator : Action → Option TxId
  | insert tx _ _ _ => some tx
  | delete tx _ => some tx
  | _ => none

/-- Changes in memory may be given up by the operation. -/
def GivesUp : Action → Prop
  | discard _ => True
  | complete _ commit => commit = false
  | _ => False

instance (a : Action) : Decidable a.GivesUp := by
  unfold GivesUp
  split <;> infer_instance

end Action

namespace Store

variable {s t : Store} {a : Action}

/-! ### Steps -/

/-- Move a scan. -/
def moveScan (s : Store) (scan : Scan) : ScanMove → Outcome Store Unit
  | .start => let (result, _, t) := scan.start s; (result, t)
  | .rewind => let (result, _, t) := scan.rewind s; (result, t)
  | .hasNext => let (result, _, t) := scan.hasNext s; (result.map fun _ => (), t)
  | .next => let (result, _, t) := scan.next s; (result.map fun _ => (), t)

/-- Add a page to the file of a table. -/
def appendPage (s : Store) (table : TableId) : Outcome Store Unit :=
  Outcome.ofExcept s do
    let file ← s.catalog.file table
    let (_, disk) ← file.appendPage s.disk
    return ((), { s with disk })

/-- Do an operation. -/
def perform (s : Store) : Action → Outcome Store Unit
  | .acquire tx id => Outcome.ofExcept s ((s.acquire tx id).map fun (_, t) => ((), t))
  | .release tx id => (.ok (), s.release tx id)
  | .insert tx table row _ => s.insertRow tx table row
  | .delete tx row => s.deleteRow tx row
  | .flush id => Outcome.ofExcept s ((s.flushPage id).map fun t => ((), t))
  | .flushAll => s.flushAll
  | .discard id => (.ok (), s.discard id)
  | .complete tx commit => s.complete tx commit
  | .append table => s.appendPage table
  | .scan scan move => s.moveScan scan move

/-- The result of an operation. -/
def result (s : Store) (a : Action) : Except DbError Unit := (s.perform a).1

/-- The store after an operation. -/
def after (s : Store) (a : Action) : Store := (s.perform a).2

/-- The store after operations one after another. -/
def run (s : Store) (actions : List Action) : Store := actions.foldl after s

@[simp] theorem run_nil (s : Store) : s.run [] = s := rfl

@[simp] theorem run_cons (s : Store) (a : Action) (actions : List Action) :
    s.run (a :: actions) = (s.after a).run actions := rfl

@[simp] theorem run_append (s : Store) (xs ys : List Action) :
    s.run (xs ++ ys) = (s.run xs).run ys := List.foldl_append

/-- The pages of a file can be counted if the operation adds a page to it. -/
def Counts (s : Store) : Action → Prop
  | .insert _ table _ _ => ∀ f, s.catalog.file table = .ok f → s.Crowded f → s.HasRoom f
  | .append table => ∀ f, s.catalog.file table = .ok f → s.HasRoom f
  | _ => True

/-- What holds of a result can be decided. -/
instance decidableForallOk {α : Type} (x : Except DbError α) (P : α → Prop) [DecidablePred P] :
    Decidable (∀ y, x = .ok y → P y) :=
  match x with
  | .error _ => isTrue nofun
  | .ok y => decidable_of_iff (P y) ⟨fun h _ hy => Except.ok.inj hy ▸ h, fun h => h y rfl⟩

instance (s : Store) : (a : Action) → Decidable (s.Counts a)
  | .insert _ table _ _ =>
    decidableForallOk (s.catalog.file table) fun f => s.Crowded f → s.HasRoom f
  | .append table => decidableForallOk (s.catalog.file table) s.HasRoom
  | .acquire _ _ => isTrue trivial
  | .release _ _ => isTrue trivial
  | .delete _ _ => isTrue trivial
  | .flush _ => isTrue trivial
  | .flushAll => isTrue trivial
  | .discard _ => isTrue trivial
  | .complete _ _ => isTrue trivial
  | .scan _ _ => isTrue trivial

/-- Something holds of every step of a run. -/
def Along (s : Store) (P : Store → Action → Prop) : List Action → Prop
  | [] => True
  | a :: actions => P s a ∧ (s.after a).Along P actions

instance decidableAlong {P : Store → Action → Prop} [∀ t a, Decidable (P t a)] :
    (s : Store) → (actions : List Action) → Decidable (s.Along P actions)
  | _, [] => isTrue trivial
  | s, a :: actions =>
    have := decidableAlong (P := P) (s.after a) actions
    inferInstanceAs (Decidable (P s a ∧ (s.after a).Along P actions))

theorem along_append {P : Store → Action → Prop} {xs ys : List Action} :
    s.Along P (xs ++ ys) ↔ s.Along P xs ∧ (s.run xs).Along P ys := by
  induction xs generalizing s with
  | nil => simp [Along]
  | cons x xs ih => simp [Along, ih, and_assoc]

theorem along_and {P Q : Store → Action → Prop} {actions : List Action} :
    s.Along (fun t a => P t a ∧ Q t a) actions ↔ s.Along P actions ∧ s.Along Q actions := by
  induction actions generalizing s with
  | nil => simp [Along]
  | cons a actions ih => simp only [Along, ih, and_and_and_comm]

theorem along_of_forall {P : Action → Prop} {actions : List Action} (h : ∀ a ∈ actions, P a) :
    s.Along (fun _ a => P a) actions := by
  induction actions generalizing s with
  | nil => exact trivial
  | cons a actions ih =>
    exact ⟨h a (by simp), ih fun b hb => h b (List.mem_cons_of_mem a hb)⟩

/-- The pages can be counted at every step of a run. -/
def Counted (s : Store) (actions : List Action) : Prop := s.Along Counts actions

instance (s : Store) (actions : List Action) : Decidable (s.Counted actions) :=
  inferInstanceAs (Decidable (s.Along Counts actions))

/-- What an operation can do to the view, with what result. -/
def Allows (s : Store) : Action → Except DbError Unit → View → Prop
  | .insert tx table row _, .ok (), w => ∃ f record, s.catalog.file table = .ok f ∧
      0 < slotCount f.pageSize f.schema.size ∧ s.Lands table record ∧
      w = s.view.insert tx f.blank record (row.rowAt record)
  | .delete tx row, .ok (), w => ∃ record cells old, row.record = some record ∧
      s.shown record.page = some cells ∧ cells[record.slot]? = some (some old) ∧
      w = s.view.delete tx record
  | .insert _ table _ _, .error _, w =>
      w = s.view ∨ ∃ f, s.catalog.file table = .ok f ∧ s.view.Grown w table f.blank
  | .append table, _, w =>
      w = s.view ∨ ∃ f, s.catalog.file table = .ok f ∧ s.view.Grown w table f.blank
  | .flush id, result, w => result = .ok () ∧ w = s.view.flushOn fun other => other = id
  | .flushAll, result, w => result = .ok () ∧ w = s.view.flushOn fun _ => True
  | .discard id, result, w => result = .ok () ∧ w = s.view.dropOn fun other => other = id
  | .complete tx true, result, w => result = .ok () ∧ w = s.view.commit tx
  | .complete tx false, result, w => result = .ok () ∧ w = s.view.abort tx
  | _, _, w => w = s.view

theorem acquires_moveScan (s : Store) (scan : Scan) (move : ScanMove) :
    s.Acquires scan.tx (s.moveScan scan move).2 := by
  cases move with
  | start => exact scan.acquires_start s
  | rewind => exact scan.close.acquires_start s
  | hasNext => exact scan.acquires_hasNext s
  | next => exact scan.acquires_next s

namespace Backed

theorem moveScan (h : s.Backed) (scan : Scan) (move : ScanMove) :
    s.Stays (s.moveScan scan move).2 :=
  h.stays_of_acquires (s.acquires_moveScan scan move)

theorem appendPage (h : s.Backed) {table : TableId} (hcounts : s.Counts (.append table)) :
    ∃ w, s.Shows (s.appendPage table).2 w ∧
      (w = s.view ∨ ∃ f, s.catalog.file table = .ok f ∧ s.view.Grown w table f.blank) := by
  unfold Store.appendPage
  cases hf : s.catalog.file table with
  | error cause => exact ⟨_, h.shows_self, .inl rfl⟩
  | ok f =>
    obtain rfl := Catalog.table_of_file hf
    cases happend : f.appendPage s.disk with
    | error cause =>
      refine ⟨s.view, ?_, .inl rfl⟩
      simp only [Bind.bind, Except.bind, happend]
      exact h.shows_self
    | ok added =>
      obtain ⟨id, disk⟩ := added
      obtain ⟨hshows, hgrown, -⟩ := h.append hf happend (hcounts f hf)
      refine ⟨_, ?_, .inr ⟨f, rfl, hgrown⟩⟩
      simp only [Bind.bind, Except.bind, happend]
      exact hshows

/-- A step does what is allowed, and the invariant of the store is kept. -/
theorem step (h : s.Backed) (hcounts : s.Counts a) :
    ∃ w, s.Shows (s.after a) w ∧ s.Allows a (s.result a) w := by
  unfold Store.after result
  cases a with
  | acquire tx id =>
    refine ⟨s.view, ?_, rfl⟩
    simp only [perform]
    cases hacquire : s.acquire tx id with
    | error cause => exact h.shows_self
    | ok given => exact (h.acquire hacquire).1.1
  | release tx id => exact ⟨s.view, (h.release tx id).1, rfl⟩
  | insert tx table row complete =>
    have hinsert : s.InsertOutcome tx table row (s.insertRow tx table row) :=
      h.insertRow complete hcounts
    change ∃ w, s.Shows (s.insertRow tx table row).2 w ∧
      s.Allows (.insert tx table row complete) (s.insertRow tx table row).1 w
    generalize s.insertRow tx table row = o at hinsert ⊢
    obtain ⟨cause | _, t⟩ := o
    · rcases hinsert with hstays | ⟨f, hf, ⟨w, hshows, hgrown⟩, -⟩
      · exact ⟨_, hstays.1, .inl rfl⟩
      · exact ⟨w, hshows, .inr ⟨f, hf, Catalog.table_of_file hf ▸ hgrown⟩⟩
    · obtain ⟨f, record, hf, hslots, hlands, -, -, hshows⟩ := hinsert
      exact ⟨_, hshows, f, record, hf, hslots, hlands, rfl⟩
  | delete tx row =>
    have hdelete : s.DeleteOutcome tx row (s.deleteRow tx row) := h.deleteRow
    change ∃ w, s.Shows (s.deleteRow tx row).2 w ∧
      s.Allows (.delete tx row) (s.deleteRow tx row).1 w
    generalize s.deleteRow tx row = o at hdelete ⊢
    obtain ⟨cause | _, t⟩ := o
    · have hstays : s.Stays t := hdelete
      exact ⟨_, hstays.1, rfl⟩
    · obtain ⟨record, cells, old, hrecord, hshown, hold, -, -, hshows⟩ := hdelete
      exact ⟨_, hshows, record, cells, old, hrecord, hshown, hold, rfl⟩
  | flush id =>
    obtain ⟨t, hflush, hshows⟩ := h.flushPage id
    rw [View.flush_eq_flushOn] at hshows
    simp only [perform, hflush]
    exact ⟨_, hshows, rfl, rfl⟩
  | flushAll =>
    obtain ⟨t, hflush, hshows⟩ := h.flushAll
    simp only [perform, hflush]
    exact ⟨_, hshows, rfl, rfl⟩
  | discard id =>
    have hshows := h.discard id
    rw [View.drop_eq_dropOn] at hshows
    exact ⟨_, hshows, rfl, rfl⟩
  | complete tx commit =>
    cases commit with
    | true =>
      obtain ⟨t, hcomplete, hshows⟩ := h.complete_commit tx
      simp only [perform, hcomplete]
      exact ⟨_, hshows, rfl, rfl⟩
    | false =>
      obtain ⟨t, hcomplete, hshows⟩ := h.complete_abort tx
      simp only [perform, hcomplete]
      exact ⟨_, hshows, rfl, rfl⟩
  | append table =>
    obtain ⟨w, hshows, hw⟩ := h.appendPage hcounts
    exact ⟨w, hshows, hw⟩
  | scan scan move => exact ⟨s.view, (h.moveScan scan move).1, rfl⟩

theorem after (h : s.Backed) (hcounts : s.Counts a) : (s.after a).Backed := by
  obtain ⟨w, hshows, -⟩ := h.step hcounts
  exact hshows.backed

/-- What every step keeps holds after a run. -/
theorem run_induction (h : s.Backed) {I : Store → Prop} {P : Store → Action → Prop}
    {actions : List Action} (hcounted : s.Counted actions) (halong : s.Along P actions)
    (hstart : I s) (hstep : ∀ (s : Store) (a : Action), s.Backed → s.Counts a → P s a → I s →
      I (s.after a)) : I (s.run actions) := by
  induction actions generalizing s with
  | nil => exact hstart
  | cons a actions ih =>
    exact ih (h.after hcounted.1) hcounted.2 halong.2 (hstep s a h hcounted.1 halong.1 hstart)

/-- The invariant is kept along a run, the tables stay the same, and so do pages that can be
read. -/
theorem run (h : s.Backed) {actions : List Action} (hcounted : s.Counted actions) :
    (s.run actions).Backed ∧ (s.run actions).catalog = s.catalog ∧
      (s.Readable → (s.run actions).Readable) := by
  refine h.run_induction (I := fun t => t.Backed ∧ t.catalog = s.catalog ∧
    (s.Readable → t.Readable)) hcounted hcounted ⟨h, rfl, fun hread => hread⟩
    fun t a ht hcounts _ ⟨_, hcatalog, hread⟩ => ?_
  obtain ⟨w, hshows, -⟩ := ht.step hcounts
  exact ⟨hshows.backed, hshows.catalog_eq.trans hcatalog, hshows.readable ∘ hread⟩

end Backed

namespace Sound

/-- A step does what is allowed, and the store stays sound. -/
theorem step (h : s.Sound) (hcounts : s.Counts a) :
    ∃ w, s.Reaches (s.after a) w ∧ s.Allows a (s.result a) w := by
  obtain ⟨w, hshows, hallows⟩ := h.backed.step hcounts
  exact ⟨w, hshows.reaches h, hallows⟩

theorem after (h : s.Sound) (hcounts : s.Counts a) : (s.after a).Sound := by
  obtain ⟨w, hreaches, -⟩ := h.step hcounts
  exact hreaches.sound

/-- What every step keeps holds after a run. -/
theorem run_induction (h : s.Sound) {I : Store → Prop} {P : Store → Action → Prop}
    {actions : List Action} (hcounted : s.Counted actions) (halong : s.Along P actions)
    (hstart : I s) (hstep : ∀ (s : Store) (a : Action), s.Sound → s.Counts a → P s a → I s →
      I (s.after a)) : I (s.run actions) := by
  induction actions generalizing s with
  | nil => exact hstart
  | cons a actions ih =>
    exact ih (h.after hcounted.1) hcounted.2 halong.2 (hstep s a h hcounted.1 halong.1 hstart)

/-- A store stays sound along a run, and its tables stay the same. -/
theorem run (h : s.Sound) {actions : List Action} (hcounted : s.Counted actions) :
    (s.run actions).Sound ∧ (s.run actions).catalog = s.catalog := by
  obtain ⟨hbacked, hcatalog, hread⟩ := h.backed.run hcounted
  exact ⟨hbacked.sound (hread h.readable), hcatalog⟩

end Sound

/-! ### Beginnings -/

/-- Nothing is in memory, and tables have files of their own. The files may hold anything. -/
structure Unread (s : Store) : Prop where
  empty : s.pool.pages = []
  files : s.catalog.DistinctFiles

theorem Unread.page?_eq_none (h : s.Unread) (id : PageId) : s.pool.page? id = none := by
  rw [Pool.page?, h.empty, List.find?_nil]

theorem Unread.backed (h : s.Unread) : s.Backed where
  files := h.files
  pages := by
    rw [Pool.Distinct, h.empty]
    exact List.nodup_nil
  cached := fun {id page} hpage => by
    rw [h.page?_eq_none id] at hpage
    cases hpage
  legible := fun {id page} hpage => by
    rw [h.page?_eq_none id] at hpage
    cases hpage

/-- A state of a run, whatever the files held when it started. -/
def Occurs (s : Store) : Prop :=
  ∃ (start : Store) (actions : List Action), start.Unread ∧ start.Counted actions ∧
    start.run actions = s

theorem Occurs.backed (h : s.Occurs) : s.Backed := by
  obtain ⟨start, actions, hunread, hcounted, rfl⟩ := h
  exact (hunread.backed.run hcounted).1

theorem Unread.occurs (h : s.Unread) : s.Occurs := ⟨s, [], h, trivial, rfl⟩

theorem Occurs.run (h : s.Occurs) {actions : List Action} (hcounted : s.Counted actions) :
    (s.run actions).Occurs := by
  obtain ⟨start, before, hunread, hbefore, rfl⟩ := h
  exact ⟨start, before ++ actions, hunread, along_append.2 ⟨hbefore, hcounted⟩,
    run_append start before actions⟩

/-- Nothing is in memory, tables have files of their own, and their pages can be read. -/
structure Initial (s : Store) : Prop where
  empty : s.pool.pages = []
  files : s.catalog.DistinctFiles
  readable : ∀ (table : TableId) (f : HeapFile) (number : Nat), s.catalog.file table = .ok f →
    f.Has s.disk number → ∃ page, f.readPage s.disk ⟨table, number⟩ = .ok page

theorem Initial.unread (h : s.Initial) : s.Unread := ⟨h.empty, h.files⟩

theorem Initial.page?_eq_none (h : s.Initial) (id : PageId) : s.pool.page? id = none :=
  h.unread.page?_eq_none id

theorem Initial.sound (h : s.Initial) : s.Sound := by
  refine h.unread.backed.sound fun id f hf hhas => ?_
  obtain ⟨page, hread⟩ := h.readable id.table f id.number hf hhas
  exact ⟨page.cells, HeapFile.cells?_eq_some_iff.2 ⟨page, hread, rfl⟩⟩

/-- A state of a run. -/
def Reachable (s : Store) : Prop :=
  ∃ (start : Store) (actions : List Action), start.Initial ∧ start.Counted actions ∧
    start.run actions = s

theorem Reachable.sound (h : s.Reachable) : s.Sound := by
  obtain ⟨start, actions, hinitial, hcounted, rfl⟩ := h
  exact (hinitial.sound.run hcounted).1

theorem Initial.reachable (h : s.Initial) : s.Reachable := ⟨s, [], h, trivial, rfl⟩

theorem Reachable.run (h : s.Reachable) {actions : List Action} (hcounted : s.Counted actions) :
    (s.run actions).Reachable := by
  obtain ⟨start, before, hinitial, hbefore, rfl⟩ := h
  exact ⟨start, before ++ actions, hinitial, along_append.2 ⟨hbefore, hcounted⟩,
    run_append start before actions⟩

/-! ### A database with one table -/

/-- The table of the database. -/
def only : TableId := ⟨1⟩

/-- A database with one table, and a file that has zeros after some bytes. Nothing is in memory. -/
def single (schema : Schema) (pageSize capacity : Nat) (bytes : List UInt8) (zeros : Nat) :
    Store where
  catalog :=
    { config := ⟨pageSize, capacity⟩
      tables := [⟨"rows", ⟨only, "rows", schema, pageSize⟩⟩]
      nextId := 2 }
  pool := { capacity }
  disk := ⟨[("rows", ⟨[.written bytes, .gap zeros]⟩)]⟩

section

variable {schema : Schema} {pageSize capacity zeros : Nat} {bytes : List UInt8}

theorem file_single {table : TableId} {f : HeapFile} :
    (single schema pageSize capacity bytes zeros).catalog.file table = .ok f ↔
      table = only ∧ f = ⟨only, "rows", schema, pageSize⟩ := by
  by_cases htable : table = only
  · subst htable
    refine ⟨fun h => ⟨rfl, ?_⟩, fun h => h.2 ▸ rfl⟩
    cases h
    rfl
  · have hnone : (single schema pageSize capacity bytes zeros).catalog.file table =
        .error (.tableNotFound table) := by
      simp [Catalog.file, Catalog.table, single, Ne.symm htable, Except.map]
    rw [hnone]
    exact ⟨nofun, fun h => absurd h.1 htable⟩

theorem contents_single : (single schema pageSize capacity bytes zeros).disk.contents "rows" =
    bytes ++ List.replicate zeros 0 := by
  simp [Disk.contents, Disk.file, Disk.file?, single, FileData.toList, Extent.toList]

/-- Every page but the first holds zeros. -/
theorem slice_single (hbytes : bytes.length ≤ pageSize) {n : Nat}
    (hhas : HeapFile.Has ⟨only, "rows", schema, pageSize⟩
      (single schema pageSize capacity bytes zeros).disk (n + 1)) :
    HeapFile.slice ⟨only, "rows", schema, pageSize⟩
      (single schema pageSize capacity bytes zeros).disk (n + 1) = List.replicate pageSize 0 := by
  refine List.eq_replicate_iff.2 ⟨HeapFile.length_slice hhas, fun byte hbyte => ?_⟩
  have hmem := List.mem_of_mem_take hbyte
  have hle : bytes.length ≤ (n + 1) * pageSize :=
    hbytes.trans (Nat.le_mul_of_pos_left _ (Nat.succ_pos n))
  rw [contents_single, List.drop_append, List.drop_eq_nil_of_le hle, List.nil_append,
    List.drop_replicate] at hmem
  exact List.eq_of_mem_replicate hmem

/-- Nothing of the database is in memory. -/
theorem single_unread : (single schema pageSize capacity bytes zeros).Unread where
  empty := rfl
  files := fun a b f g hf hg _ => by rw [(file_single.1 hf).1, (file_single.1 hg).1]

/-- A run may start with the database if its first page can be read, or is not there. -/
theorem single_initial (hbytes : bytes.length ≤ pageSize) (hsize : pageSize ≤ Page.maxSize)
    (htotal : bytes.length + zeros ≤ HeapFile.maxOffset)
    (hfirst : ((single schema pageSize capacity bytes zeros).stored ⟨only, 0⟩).isSome ∨
      bytes.length + zeros < pageSize) :
    (single schema pageSize capacity bytes zeros).Initial where
  empty := single_unread.empty
  files := single_unread.files
  readable := by
    intro table f number hf hhas
    obtain ⟨rfl, rfl⟩ := file_single.1 hf
    have hlength : (number + 1) * pageSize ≤ bytes.length + zeros := hhas
    cases number with
    | zero =>
      rw [Nat.zero_add, Nat.one_mul] at hlength
      obtain ⟨cells, hcells⟩ := Option.isSome_iff_exists.1 (hfirst.resolve_right hlength.not_gt)
      rw [stored_eq ⟨only, 0⟩ hf] at hcells
      obtain ⟨page, hread, -⟩ := HeapFile.cells?_eq_some_iff.1 hcells
      exact ⟨page, hread⟩
    | succ n =>
      obtain ⟨page, hdecode, -⟩ := Page.decode_zeros ⟨only, n + 1⟩ schema pageSize
      refine ⟨page, HeapFile.readPage_eq_ok_iff.2 ⟨⟨rfl, hsize, ?_⟩, hhas, ?_⟩⟩
      · rw [PageId.offset, ← Nat.succ_mul]
        exact hlength.trans htotal
      · rw [slice_single hbytes hhas]
        exact hdecode

end

/-- The schema of a table of numbers. -/
def numbers : Schema := .single ⟨.int, none⟩

/-- A number, as a row. -/
def number (n : Int32) : Tuple := .ofList numbers [.int n]

/-- A number is inserted by a transaction. -/
def insertNumber (tx : TxId) (n : Int32) : Action := .insert tx only (number n) rfl

/-- A number is deleted by a transaction. -/
def deleteNumber (tx : TxId) (n : Int32) (record : RecordId) : Action :=
  .delete tx { number n with record := some record }

/-- A table of numbers without pages. -/
def noNumbers : Store := single numbers 64 8 [] 0

theorem noNumbers_initial : noNumbers.Initial :=
  single_initial (by decide) (by decide) (by decide) (.inr (by decide))

/-- A table of numbers, of one slot for each page number. Its first page has a 7. -/
def sevenAndZeros : Store := single numbers 5 1 [1, 7, 0, 0, 0] (5 * (HeapFile.pageNumbers - 1))

theorem sevenAndZeros_initial : sevenAndZeros.Initial :=
  single_initial (by decide) (by decide) (by decide) (.inl (by decide +kernel))

end Store

end Rowstore
