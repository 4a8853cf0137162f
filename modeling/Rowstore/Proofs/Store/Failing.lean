import Mathlib
import Rowstore.Operator.Pull
import Rowstore.Proofs.Store.Keeping

/-!
# How stores fail

The causes for which the operations of a store can fail, `FailsOnly`.

* A page that is wanted can be out of reach, too short or not decode, its table can be gone, and the
  pool can have no room for it: `DbError.isPaging`. A scan fails for no other cause.
* Rows can be refused for many causes when they are stored, deleted or summed up. That there is no
  other row, or that an operator is not open, is none of them: `DbError.isInner`. Nor is it that
  steps were too few, where their count is not limited: `DbError.isProper`.
* That the pages of a file have an unusable size is a cause of its own. It does not arise if all
  sizes are usable: `DbError.isAbsence` are the other causes for which a page cannot be had, and
  `DbError.isRefusal` those for which the work on rows fails. What is said of causes of any kind,
  as of `Store.acquire_causes`, holds with that cause and without it.
-/

namespace Rowstore

/-- Why a page cannot be had. -/
def DbError.isPaging : DbError → Bool
  | io | shortRead .. | invalidPage _ | tableNotFound _ | bufferPoolFull | badPageSize => true
  | _ => false

/-- Why a page of a usable size cannot be had. -/
def DbError.isAbsence : DbError → Bool
  | io | shortRead .. | invalidPage _ | tableNotFound _ | bufferPoolFull => true
  | _ => false

/-- Why the work on rows and pages fails: all causes but those that only calls of operators have. -/
def DbError.isInner : DbError → Bool
  | noSuchElement | operatorNotOpen => false
  | _ => true

/-- Why work on rows and pages fails that is given all the steps it takes. -/
def DbError.isProper : DbError → Bool
  | noSuchElement | operatorNotOpen | unfinished => false
  | _ => true

/-- Why work on rows fails, if pages have a usable size and there are steps enough. -/
def DbError.isRefusal : DbError → Bool
  | noSuchElement | operatorNotOpen | unfinished | badPageSize => false
  | _ => true

theorem DbError.isPaging_of_isAbsence {cause : DbError} (h : cause.isAbsence) :
    cause.isPaging := by
  cases cause <;> first | rfl | cases h

theorem DbError.isRefusal_of_isAbsence {cause : DbError} (h : cause.isAbsence) :
    cause.isRefusal := by
  cases cause <;> first | rfl | cases h

theorem DbError.isProper_of_isRefusal {cause : DbError} (h : cause.isRefusal) :
    cause.isProper := by
  cases cause <;> first | rfl | cases h

theorem DbError.isProper_of_isPaging {cause : DbError} (h : cause.isPaging) : cause.isProper := by
  cases cause <;> first | rfl | cases h

theorem DbError.isInner_of_isProper {cause : DbError} (h : cause.isProper) : cause.isInner := by
  cases cause <;> first | rfl | cases h

/-- A failure is for a cause of some kind. -/
def FailsOnly {α : Type} (kind : DbError → Bool) (x : Except DbError α) : Prop :=
  ∀ cause, x = .error cause → kind cause

namespace FailsOnly

variable {α β : Type} {kind kind' : DbError → Bool} {x : Except DbError α}

theorem ok (a : α) : FailsOnly kind (.ok a : Except DbError α) := nofun

theorem error {cause : DbError} (h : kind cause) :
    FailsOnly kind (.error cause : Except DbError α) := by
  rintro _ ⟨⟩
  exact h

theorem mono (h : FailsOnly kind x) (himp : ∀ {cause}, kind cause → kind' cause) :
    FailsOnly kind' x := fun cause hcause => himp (h cause hcause)

/-- What fails only for some causes does not fail for another one. -/
theorem ne_error (h : FailsOnly kind x) (cause : DbError) (hcause : kind cause = false) :
    x ≠ .error cause := fun hx => Bool.noConfusion (hcause.symm.trans (h cause hx))

theorem inner (h : FailsOnly DbError.isProper x) : FailsOnly DbError.isInner x :=
  h.mono DbError.isInner_of_isProper

theorem proper (h : FailsOnly DbError.isRefusal x) : FailsOnly DbError.isProper x :=
  h.mono DbError.isProper_of_isRefusal

theorem map (h : FailsOnly kind x) (f : α → β) : FailsOnly kind (x.map f) := by
  cases x with
  | ok a => exact ok (f a)
  | error cause => exact error (h cause rfl)

theorem bind (h : FailsOnly kind x) {f : α → Except DbError β} (hf : ∀ a, FailsOnly kind (f a)) :
    FailsOnly kind (x >>= f) := by
  cases x with
  | ok a => exact hf a
  | error cause => exact error (h cause rfl)

theorem mapM {γ : Type} {f : γ → Except DbError β} (hf : ∀ c, FailsOnly kind (f c))
    (cs : List γ) : FailsOnly kind (cs.mapM f) := by
  induction cs with
  | nil => exact ok []
  | cons c cs ih =>
    rw [List.mapM_cons]
    exact (hf c).bind fun b => ih.bind fun bs => ok (b :: bs)

theorem forM {γ : Type} {f : γ → Except DbError PUnit} (hf : ∀ c, FailsOnly kind (f c))
    (cs : List γ) : FailsOnly kind (cs.forM f) := by
  induction cs with
  | nil => exact ok ()
  | cons c cs ih =>
    show FailsOnly kind (f c >>= fun _ => cs.forM f)
    exact (hf c).bind fun _ => ih

end FailsOnly

/-! ### Pages that are wanted -/

/-- Pages of the file have a size at which they can be counted and held in memory. -/
def HeapFile.Usable (f : HeapFile) : Prop := 0 < f.pageSize ∧ f.pageSize ≤ Page.maxSize

theorem Page.decode_fails (id : PageId) (schema : Schema) (image : List UInt8) :
    FailsOnly DbError.isAbsence (decode id schema image) := by
  unfold decode
  refine (FailsOnly.mapM ?_ _).bind fun slots => .ok _
  rintro ⟨⟨used, cell⟩, slot⟩
  dsimp only
  unfold decodeSlot
  split
  · exact .ok none
  · split
    · exact .error rfl
    · split
      · exact .error rfl
      · exact .ok _

theorem HeapFile.place_fails (f : HeapFile) (id : PageId) :
    FailsOnly DbError.isAbsence (f.place id) := by
  unfold place
  split_ifs
  · exact .error rfl
  · exact .ok _

theorem Catalog.file_fails (c : Catalog) (id : TableId) :
    FailsOnly DbError.isAbsence (c.file id) := by
  refine FailsOnly.map ?_ _
  unfold table
  split
  · exact .ok _
  · exact .error rfl

theorem Pool.load_fails (p : Pool) (page : Page) : FailsOnly DbError.isAbsence (p.load page) := by
  unfold load
  split_ifs
  · exact .ok _
  · split
    · exact .ok _
    · exact .error rfl

section Causes

variable {kind : DbError → Bool} (habsence : ∀ {cause : DbError}, cause.isAbsence → kind cause)

theorem HeapFile.pageCount_causes (f : HeapFile) (disk : Disk)
    (hsize : ¬ f.Usable → kind .badPageSize) : FailsOnly kind (f.pageCount disk) := by
  unfold pageCount
  split_ifs with hzero
  · exact .error (hsize fun h => h.1.ne' hzero)
  · exact .ok _

include habsence

theorem HeapFile.readPage_causes (f : HeapFile) (disk : Disk) (id : PageId)
    (hsize : ¬ f.Usable → kind .badPageSize) : FailsOnly kind (f.readPage disk id) := by
  unfold readPage
  split_ifs with _ hlarge
  · exact .error (habsence rfl)
  · exact .error (hsize fun h => h.2.not_gt hlarge)
  · refine FailsOnly.mono (FailsOnly.bind ?_ fun bytes => Page.decode_fails id f.schema bytes)
      habsence
    refine (f.place_fails id).bind fun offset => ?_
    dsimp only
    split_ifs
    · exact .error rfl
    · exact .ok _

theorem HeapFile.appendPage_causes (f : HeapFile) (disk : Disk)
    (hsize : ¬ f.Usable → kind .badPageSize) : FailsOnly kind (f.appendPage disk) := by
  unfold appendPage
  refine (f.pageCount_causes disk hsize).bind fun count => ?_
  split_ifs with hlarge
  · exact .error (hsize fun h => h.2.not_gt hlarge)
  · exact ((f.place_fails _).mono habsence).bind fun offset => .ok _

/-- A page that is wanted can only be out of reach. -/
theorem Store.acquire_causes (s : Store) (tx : TxId) (id : PageId)
    (hsize : ∀ f, s.catalog.file id.table = .ok f → ¬ f.Usable → kind .badPageSize) :
    FailsOnly kind (s.acquire tx id) := by
  unfold acquire
  split
  · exact .ok _
  · cases hf : s.catalog.file id.table with
    | error cause => exact .error (habsence (s.catalog.file_fails id.table cause hf))
    | ok f =>
      exact (f.readPage_causes habsence s.disk id (hsize f hf)).bind fun page =>
        ((s.pool.load_fails page).mono habsence).bind fun pool => .ok _

namespace Scan

variable (scan : Scan) (s : Store)
  (hsize : ∀ f, s.catalog.file scan.file.table = .ok f → ¬ f.Usable → kind .badPageSize)

include hsize

theorem load_causes (page : Nat) : FailsOnly kind (scan.load s page).1 := by
  unfold load
  have h := s.acquire_causes habsence scan.tx ⟨scan.file.table, page⟩ hsize
  cases hacquire : s.acquire scan.tx ⟨scan.file.table, page⟩ with
  | error cause => exact .error (h cause hacquire)
  | ok result => exact .ok _

theorem start_causes (hown : ¬ scan.file.Usable → kind .badPageSize) :
    FailsOnly kind (scan.start s).1 := by
  unfold start
  split
  · rename_i cause hcount
    exact .error (scan.file.pageCount_causes s.disk hown cause hcount)
  · rename_i count _
    dsimp only
    split_ifs
    · exact .ok ()
    · have h := load_causes habsence { scan with page := 0, pageCount := count } s hsize 0
      generalize load { scan with page := 0, pageCount := count } s 0 = o at h ⊢
      obtain ⟨cause | rows, t⟩ := o
      · exact .error (h cause rfl)
      · exact .ok ()

theorem seek_causes (pages : Nat) : FailsOnly kind (scan.seek s pages).1 := by
  induction pages generalizing scan s with
  | zero => exact .ok false
  | succ pages ih =>
    unfold seek
    dsimp only
    have h := load_causes habsence { scan with page := scan.page + 1 } s hsize (scan.page + 1)
    have hcatalog : (load { scan with page := scan.page + 1 } s (scan.page + 1)).2.catalog =
        s.catalog := (acquires_load _ s _).catalog_eq
    generalize load { scan with page := scan.page + 1 } s (scan.page + 1) = o at h hcatalog ⊢
    obtain ⟨cause | rows, t⟩ := o
    · exact .error (h cause rfl)
    · rw [Outcome.andThen_ok]
      split_ifs
      · exact ih _ t (hcatalog ▸ hsize)
      · exact .ok true

theorem hasNext_causes : FailsOnly kind (scan.hasNext s).1 := by
  unfold hasNext
  split
  · exact .ok false
  · exact .ok true
  · exact scan.seek_causes habsence s hsize _

end Scan

end Causes

theorem HeapFile.pageCount_fails (f : HeapFile) (disk : Disk) :
    FailsOnly DbError.isPaging (f.pageCount disk) := f.pageCount_causes disk fun _ => rfl

theorem Store.acquire_fails (s : Store) (tx : TxId) (id : PageId) :
    FailsOnly DbError.isPaging (s.acquire tx id) :=
  s.acquire_causes DbError.isPaging_of_isAbsence tx id fun _ _ _ => rfl

namespace Scan

variable (scan : Scan) (s : Store)

theorem start_fails : FailsOnly DbError.isPaging (scan.start s).1 :=
  scan.start_causes DbError.isPaging_of_isAbsence s (fun _ _ _ => rfl) fun _ => rfl

theorem hasNext_fails : FailsOnly DbError.isPaging (scan.hasNext s).1 :=
  scan.hasNext_causes DbError.isPaging_of_isAbsence s fun _ _ _ => rfl

end Scan

/-! ### Rows that are looked at -/

theorem Tuple.field_fails (t : Tuple) (index : Nat) :
    FailsOnly DbError.isRefusal (t.field index) := by
  unfold field
  split
  · exact .ok _
  · exact .error rfl
  · exact .error rfl

theorem Predicate.holds_fails (p : Predicate) (row : Tuple) :
    FailsOnly DbError.isRefusal (p.holds row) := (row.field_fails p.column).map _

theorem JoinPredicate.holds_fails (p : JoinPredicate) (l r : Tuple) :
    FailsOnly DbError.isRefusal (p.holds l r) :=
  (l.field_fails p.left).bind fun _ => (r.field_fails p.right).bind fun _ => .ok _

theorem Schema.column_fails (s : Schema) (index : Nat) :
    FailsOnly DbError.isRefusal (s.column index) := by
  unfold column
  split
  · exact .ok _
  · exact .error rfl

namespace Aggregator

theorem merge_fails (a : Aggregator) (row : Tuple) :
    FailsOnly DbError.isRefusal (a.merge row) := by
  unfold merge
  split_ifs
  · exact .ok a
  · refine (row.field_fails _).bind fun v => FailsOnly.bind ?_ fun n =>
      FailsOnly.bind ?_ fun key => .ok _
    · unfold number
      split
      · exact .ok _
      · exact .ok _
      · exact .error rfl
    · unfold groupKey
      split
      · exact .ok none
      · refine (row.field_fails _).bind fun v => ?_
        split_ifs
        · exact .error rfl
        · exact .ok _

theorem rows_fails (a : Aggregator) : FailsOnly DbError.isRefusal a.rows := by
  have hrow : ∀ key result, FailsOnly DbError.isRefusal (resultRow a.schema key result) := by
    intro key result
    unfold resultRow
    split_ifs
    · exact .error rfl
    · exact .ok _
  unfold rows
  split_ifs
  · exact .ok []
  · exact (hrow none 0).map _
  · exact .mapM (fun _ => hrow _ _) _

end Aggregator

theorem Operator.newAggregator_fails (input : Schema) (column : Nat) (group : Option Nat)
    (fn : AggregateFunction) :
    FailsOnly DbError.isRefusal (newAggregator input column group fn) := by
  have hnew : ∀ grouping, FailsOnly DbError.isRefusal (do
      let summarised ← input.column column
      Aggregator.new summarised.type grouping column fn) := by
    refine fun grouping => (input.column_fails column).bind fun summarised => ?_
    unfold Aggregator.new
    split_ifs
    · exact .error rfl
    · exact .ok _
  unfold newAggregator
  cases group with
  | none => exact hnew none
  | some g => exact (input.column_fails g).bind fun grouping => hnew (some (g, grouping.type))

/-! ### Rows that are stored or deleted -/

theorem Value.checkStorable_fails (v : Value) (type : ColumnType) :
    FailsOnly DbError.isRefusal (v.checkStorable type) := by
  unfold checkStorable
  split_ifs
  · exact .error rfl
  · split
    · exact .ok ()
    · split_ifs
      · exact .error rfl
      · exact .ok ()

theorem Tuple.checkStorable_fails (t : Tuple) (schema : Schema) :
    FailsOnly DbError.isRefusal (t.checkStorable schema) := by
  unfold checkStorable
  split_ifs
  · exact FailsOnly.forM (fun c => (t.field_fails _).bind fun v => v.checkStorable_fails _) _
  · exact .error rfl

theorem Tuple.encode_fails (t : Tuple) : FailsOnly DbError.isRefusal t.encode := by
  refine (FailsOnly.mapM (fun index => (t.field_fails index).bind fun v => ?_) _).bind
    fun cells => .ok _
  unfold Value.encode
  split
  · exact .ok _
  · dsimp only
    split_ifs
    · exact .error rfl
    · exact .ok _

theorem Page.insert_fails (p : Page) (row : Tuple) :
    FailsOnly DbError.isRefusal (p.insert row) := by
  refine (row.checkStorable_fails _).bind fun _ => ?_
  split
  · exact .error rfl
  · split_ifs
    · exact .error rfl
    · exact .ok _

theorem Page.delete_fails (p : Page) (row : Tuple) :
    FailsOnly DbError.isRefusal (p.delete row) := by
  unfold delete
  split
  · exact .error rfl
  · split
    · exact .error rfl
    · split
      · exact .error rfl
      · exact .ok _

theorem HeapFile.writePage_fails (f : HeapFile) (disk : Disk) (page : Page) :
    FailsOnly DbError.isRefusal (f.writePage disk page) := by
  unfold writePage
  split_ifs
  · exact .error rfl
  · refine FailsOnly.bind ?_ fun bytes => ?_
    · refine (FailsOnly.mapM (fun row => ?_) _).bind fun slots => .ok _
      unfold Page.encodeSlot
      split
      · exact Tuple.encode_fails _
      · exact .ok _
    · split_ifs
      · exact .error rfl
      · exact ((f.place_fails _).mono DbError.isRefusal_of_isAbsence).bind fun offset => .ok _

/-- What goes on from an outcome ends in a failure of either, or in what comes then. -/
theorem Outcome.andThen_cases {σ τ α β : Type} {o : Outcome σ α} {keep : σ → τ}
    {next : α → σ → Outcome τ β} {P : Outcome τ β → Prop}
    (herror : ∀ cause s, o = (.error cause, s) → P (.error cause, keep s))
    (hok : ∀ a s, o = (.ok a, s) → P (next a s)) : P (o.andThen keep next) := by
  obtain ⟨cause | a, s⟩ := o
  · exact herror cause s rfl
  · exact hok a s rfl

/-- Going on from an operation of a store, both of which fail only for some causes. -/
theorem Outcome.andThen_fails {σ τ α β : Type} {kind : DbError → Bool} {o : Outcome σ α}
    {keep : σ → τ} {next : α → σ → Outcome τ β} (h : FailsOnly kind o.1)
    (hnext : ∀ a s, FailsOnly kind (next a s).1) : FailsOnly kind (o.andThen keep next).1 := by
  refine andThen_cases (P := fun o => FailsOnly kind o.1) ?_ fun a s _ => hnext a s
  rintro cause s rfl
  exact .error (h cause rfl)

namespace Store

variable (s : Store) (tx : TxId) (row : Tuple)

section Causes

variable {kind : DbError → Bool} (hrefusal : ∀ {cause : DbError}, cause.isRefusal → kind cause)

include hrefusal

theorem insertIntoPage_causes (id : PageId)
    (hsize : ∀ f, s.catalog.file id.table = .ok f → ¬ f.Usable → kind .badPageSize) :
    FailsOnly kind (s.insertIntoPage tx row id).1 := by
  have hacquire := s.acquire_causes (fun h => hrefusal (DbError.isRefusal_of_isAbsence h)) tx id
    hsize
  rcases s.insertIntoPage_cases tx row id with ⟨cause, hcause, heq⟩ | ⟨page, t, -, hcases⟩
  · rw [heq]
    exact .error (hacquire cause hcause)
  · rcases hcases with ⟨-, heq⟩ | ⟨cause, -, hinsert, heq⟩ | ⟨record, filled, -, -, heq⟩ <;>
      rw [heq]
    · exact .ok none
    · exact .error (hrefusal (page.insert_fails row cause hinsert))
    · exact .ok _

theorem insertFirstFit_causes (table : TableId) (first pages : Nat)
    (hsize : ∀ f, s.catalog.file table = .ok f → ¬ f.Usable → kind .badPageSize) :
    FailsOnly kind (s.insertFirstFit tx row table first pages).1 := by
  induction pages generalizing s first with
  | zero => exact .ok none
  | succ pages ih =>
    have hpage := s.insertIntoPage_causes tx row hrefusal ⟨table, first⟩ hsize
    have hcatalog := s.catalog_insertIntoPage tx row ⟨table, first⟩
    unfold insertFirstFit
    generalize s.insertIntoPage tx row ⟨table, first⟩ = o at hpage hcatalog ⊢
    obtain ⟨cause | _ | stored, t⟩ := o
    · exact .error (hpage cause rfl)
    · exact ih t (first + 1) (hcatalog ▸ hsize)
    · exact .ok _

theorem insertIntoNewPage_causes (file : HeapFile)
    (hown : ¬ file.Usable → kind .badPageSize)
    (hsize : ∀ f, s.catalog.file file.table = .ok f → ¬ f.Usable → kind .badPageSize) :
    FailsOnly kind (s.insertIntoNewPage tx row file).1 := by
  unfold insertIntoNewPage
  cases happend : file.appendPage s.disk with
  | error cause =>
    exact .error (file.appendPage_causes
      (fun h => hrefusal (DbError.isRefusal_of_isAbsence h)) s.disk hown cause happend)
  | ok added =>
    obtain ⟨new, disk⟩ := added
    obtain ⟨-, -, rfl, -⟩ := HeapFile.appendPage_eq_ok_iff.1 happend
    refine Outcome.andThen_fails (insertIntoPage_causes _ tx row hrefusal _ hsize) ?_
    rintro (_ | page) t
    · exact .ok none
    · dsimp only
      split
      · rename_i cause hwrite
        exact .error (hrefusal (file.writePage_fails t.disk page cause hwrite))
      · exact .ok _

theorem insertWithin_causes (hrounds : kind .unfinished) (file : HeapFile) (rounds : Nat)
    (hown : ¬ file.Usable → kind .badPageSize)
    (hsize : ∀ f, s.catalog.file file.table = .ok f → ¬ f.Usable → kind .badPageSize) :
    FailsOnly kind (s.insertWithin tx row file rounds).1 := by
  induction rounds generalizing s with
  | zero => exact .error hrounds
  | succ rounds ih =>
    unfold insertWithin
    cases hcount : file.pageCount s.disk with
    | error cause => exact .error (file.pageCount_causes s.disk hown cause hcount)
    | ok count =>
      have hfit := s.insertFirstFit_causes tx row hrefusal file.table 0 count hsize
      have hcatalog := s.catalog_insertFirstFit tx row file.table 0 count
      dsimp only
      generalize s.insertFirstFit tx row file.table 0 count = o at hfit hcatalog ⊢
      obtain ⟨cause | _ | id, t⟩ := o
      · exact .error (hfit cause rfl)
      · have hnew := t.insertIntoNewPage_causes tx row hrefusal file hown (hcatalog ▸ hsize)
        have hcatalog' := t.catalog_insertIntoNewPage tx row file
        simp only [Outcome.andThen_ok]
        generalize t.insertIntoNewPage tx row file = o at hnew hcatalog' ⊢
        obtain ⟨cause | _ | id, u⟩ := o
        · exact .error (hnew cause rfl)
        · exact ih u (hcatalog' ▸ hcatalog ▸ hsize)
        · exact .ok id
      · exact .ok id

theorem insertRow_causes (hrounds : kind .unfinished) (table : TableId)
    (hsize : ∀ f, s.catalog.file table = .ok f → ¬ f.Usable → kind .badPageSize) :
    FailsOnly kind (s.insertRow tx table row).1 := by
  unfold insertRow
  cases hf : s.catalog.file table with
  | error cause =>
    exact .error (hrefusal (DbError.isRefusal_of_isAbsence (s.catalog.file_fails table cause hf)))
  | ok file =>
    obtain rfl := Catalog.table_of_file hf
    refine Outcome.andThen_fails ?_ fun id t => .ok ()
    unfold insertIntoFile
    split
    · rename_i cause hcheck
      exact .error (hrefusal (row.checkStorable_fails _ cause hcheck))
    · exact s.insertWithin_causes tx row hrefusal hrounds file _ (hsize file hf) hsize

end Causes

theorem insertFirstFit_fails (table : TableId) (first pages : Nat) :
    FailsOnly DbError.isProper (s.insertFirstFit tx row table first pages).1 :=
  s.insertFirstFit_causes tx row DbError.isProper_of_isRefusal table first pages fun _ _ _ => rfl

theorem insertIntoNewPage_fails (file : HeapFile) :
    FailsOnly DbError.isProper (s.insertIntoNewPage tx row file).1 :=
  s.insertIntoNewPage_causes tx row DbError.isProper_of_isRefusal file (fun _ => rfl)
    fun _ _ _ => rfl

theorem insertRow_fails (table : TableId) :
    FailsOnly DbError.isInner (s.insertRow tx table row).1 :=
  s.insertRow_causes tx row
    (fun h => DbError.isInner_of_isProper (DbError.isProper_of_isRefusal h)) rfl table
    fun _ _ _ => rfl

theorem deleteFromFile_fails (file : HeapFile) :
    FailsOnly DbError.isProper (s.deleteFromFile tx file row).1 := by
  unfold deleteFromFile
  split
  · exact .error rfl
  · split_ifs
    · exact .error rfl
    · split
      · rename_i cause hcount
        exact .error (DbError.isProper_of_isPaging (file.pageCount_fails s.disk cause hcount))
      · split_ifs
        · exact .error rfl
        · split
          · rename_i cause hacquire
            exact .error (DbError.isProper_of_isPaging (s.acquire_fails tx _ cause hacquire))
          · rename_i page _ _
            split
            · rename_i cause hdelete
              exact .error (DbError.isProper_of_isRefusal (page.delete_fails row cause hdelete))
            · exact .ok _

theorem deleteRow_fails : FailsOnly DbError.isProper (s.deleteRow tx row).1 := by
  unfold deleteRow
  split
  · exact .error rfl
  · split
    · rename_i cause hfile
      have habsence := s.catalog.file_fails _ cause hfile
      exact .error (DbError.isProper_of_isRefusal (DbError.isRefusal_of_isAbsence habsence))
    · exact Outcome.andThen_fails (s.deleteFromFile_fails tx row _) fun id t => .ok ()

end Store

end Rowstore
