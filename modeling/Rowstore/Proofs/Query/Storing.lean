import Mathlib
import Rowstore.Proofs.Query.Lending
import Rowstore.Proofs.Store.Keeping
import Rowstore.Proofs.Store.Searching

/-!
# Rows pulled and stored

The rows of a tree are pulled and stored in a table, one after another: `Operator.Fills`. That goes
on until the rows end, the tree fails, or a row cannot be stored, `Operator.Stops`. So does a pull
of an insertion, `Operator.fills_of_pull`.

While that goes on the file of the table grows, `Operator.Fills.grows`. So if its pages have numbers
in the end, they had numbers all along.
-/

namespace Rowstore

/-- A row as an insertion stores it. -/
def Tuple.toStore (schema : Schema) (t : Tuple) : Tuple := { t.relabel schema with record := none }

namespace Operator

/-- Rows of a tree are pulled and stored, one after another. -/
inductive Fills (db : Nat) (tx : TxId) (table : TableId) (schema : Schema) :
    Operator × Engine → List Tuple → Operator × Engine → Prop
  | refl (s : Operator × Engine) : Fills db tx table schema s [] s
  | cons {op op' e e' n row t rows last} (hpull : pull n op e = (.ok (some row), op', e'))
      (hinsert : (e'.store db).insertRow tx table (row.toStore schema) = (.ok (), t))
      (hrest : Fills db tx table schema (op', e'.setStore db t) rows last) :
      Fills db tx table schema (op, e) (row :: rows) last

/-- No row is stored any more: there are none, the tree fails, or a row cannot be stored. -/
inductive Stops (db : Nat) (tx : TxId) (table : TableId) (schema : Schema) :
    Operator × Engine → Except DbError Unit → Operator × Engine → Prop
  | ended {op e n last} (hpull : pull n op e = (.ok none, last)) :
      Stops db tx table schema (op, e) (.ok ()) last
  | failed {op e n cause last} (hpull : pull n op e = (.error cause, last))
      (hcause : cause ≠ .unfinished) : Stops db tx table schema (op, e) (.error cause) last
  | blocked {op op' e e' n row cause t} (hpull : pull n op e = (.ok (some row), op', e'))
      (hinsert : (e'.store db).insertRow tx table (row.toStore schema) = (.error cause, t)) :
      Stops db tx table schema (op, e) (.error cause) (op', e'.setStore db t)

variable {e₀ e : Engine} {op : Operator} {s s' mid last : Operator × Engine} {db : Nat} {tx : TxId}
  {table : TableId} {schema : Schema} {f : HeapFile} {rows : List Tuple} {n : Nat}

/-- All rows of a tree are taken into a table, as far as that goes. -/
theorem fills_of_drain {k m count : Nat} {result : Except DbError Nat}
    (h : drainWith (pull k) (takeInsert db tx table schema) m count op e = (result, last))
    (hresult : result ≠ .error .unfinished) :
    ∃ rows mid, Fills db tx table schema (op, e) rows mid ∧
      Stops db tx table schema mid (result.map fun _ => ()) last ∧
      ∀ total, result = .ok total → total = count + rows.length := by
  induction m generalizing op e count with
  | zero =>
    cases h
    exact absurd rfl hresult
  | succ m ih =>
    cases hpull : pull k op e with | mk given s
    obtain ⟨op', e'⟩ := s
    cases given with
    | error cause =>
      rw [drainWith_of_error hpull] at h
      cases h
      exact ⟨[], _, .refl _, .failed hpull fun hsame => hresult (hsame ▸ rfl), by simp⟩
    | ok given =>
      cases given with
      | none =>
        rw [drainWith_of_none hpull] at h
        cases h
        exact ⟨[], _, .refl _, .ended hpull, fun total htotal => (Except.ok.inj htotal).symm⟩
      | some row =>
        rw [drainWith_of_row hpull] at h
        unfold takeInsert Engine.run at h
        dsimp only at h
        cases hinsert : (e'.store db).insertRow tx table (row.toStore schema) with | mk stored t
        rw [show (e'.store db).insertRow tx table { row.relabel schema with record := none } =
          (stored, t) from hinsert] at h
        cases stored with
        | error cause =>
          cases h
          exact ⟨[], _, .refl _, .blocked hpull hinsert, by simp⟩
        | ok u =>
          obtain ⟨rows, mid, hfills, hstops, htotal⟩ := ih h
          refine ⟨row :: rows, mid, .cons hpull hinsert hfills, hstops, fun total h => ?_⟩
          rw [htotal total h, List.length_cons]
          omega

/-- What a pull of an insertion that has not begun comes to. -/
theorem fills_of_pull {result : Except DbError (Option Tuple)}
    (h : (insert db tx table schema op false .ready).pull n e = (result, s'))
    (hresult : result ≠ .error .unfinished) :
    ∃ rows mid last, Fills db tx table schema (op, e) rows mid ∧
      ((Stops db tx table schema mid (.ok ()) last ∧ result = .ok (some (countRow rows.length)) ∧
          s' = (insert db tx table schema last.1 true .ready, last.2)) ∨
        ∃ cause, Stops db tx table schema mid (.error cause) last ∧ result = .error cause ∧
          s' = (insert db tx table schema last.1 false .ready, last.2)) := by
  rw [pull, pullWith_eq_of_ready rfl] at h
  cases n with
  | zero =>
    cases h
    exact absurd rfl hresult
  | succ k =>
    unfold fetch at h
    cases hdrain : drainWith (pullWith (fetch k)) (takeInsert db tx table schema) k 0 op e with
    | mk drained last
    rw [hdrain] at h
    cases drained with
    | error cause =>
      cases h
      obtain ⟨rows, mid, hfills, hstops, -⟩ :=
        fills_of_drain hdrain fun hsame => hresult (Except.error.inj hsame ▸ rfl)
      exact ⟨rows, mid, last, hfills, .inr ⟨cause, hstops, rfl, rfl⟩⟩
    | ok total =>
      cases h
      obtain ⟨rows, mid, hfills, hstops, htotal⟩ := fills_of_drain hdrain (by simp)
      rw [htotal total rfl, Nat.zero_add]
      exact ⟨rows, mid, last, hfills, .inl ⟨hstops, rfl, rfl⟩⟩

/-! ### Files that grow -/

/-- The file that is filled has no fewer pages. -/
theorem Fills.grows (h : Fills db tx f.table schema s rows last) (hop : s.1.Readable e₀)
    (hf : (s.2.store db).catalog.file f.table = .ok f) :
    last.1.Readable e₀ ∧ (last.2.store db).catalog.file f.table = .ok f ∧
      f.wholePages s.2.disk ≤ f.wholePages last.2.disk := by
  induction h with
  | refl => exact ⟨hop, hf, le_rfl⟩
  | @cons op op' e e' n row t rows last hpull hinsert hrest ih =>
    have hlent := Lent.of_pull hop hpull
    have hf' : (e'.store db).catalog.file f.table = .ok f := by
      rw [(hlent.borrows.store db).reads.catalog_eq]
      exact hf
    have hedits := Store.edits_insertRow hf' tx (row.toStore schema)
    have hsame := (e'.store db).catalog_insertRow tx (row.toStore schema) f.table
    rw [hinsert] at hedits hsame
    obtain ⟨hreadable, hfile, hle⟩ := ih ((readable_congr hlent.fresh_eq).2 hop) (by
      rw [e'.store_setStore t (Engine.lt_of_file hf'), show t.catalog = _ from hsame]
      exact hf')
    refine ⟨hreadable, hfile, ?_⟩
    rw [← show e'.disk = e.disk from hlent.borrows.disk_eq]
    exact hedits.wholePages_le.trans hle

/-- If the pages have numbers when rows have been stored, they had numbers before the first one
was. -/
theorem Fills.countable {op' : Operator} {e' : Engine} {t : Store} {row : Tuple}
    (hpull : op.pull n e = (.ok (some row), op', e'))
    (hinsert : (e'.store db).insertRow tx f.table (row.toStore schema) = (.ok (), t))
    (hrest : Fills db tx f.table schema (op', e'.setStore db t) rows last) (hop : op.Readable e₀)
    (hf : (e.store db).catalog.file f.table = .ok f) (hcount : f.Countable last.2.disk) :
    f.Countable e'.disk := by
  obtain ⟨-, -, hle⟩ := (Fills.cons hpull hinsert hrest).grows hop hf
  rw [HeapFile.Countable, (Lent.of_pull hop hpull).borrows.disk_eq]
  exact hle.trans_lt hcount

theorem Stops.wholePages_le {result : Except DbError Unit}
    (h : Stops db tx f.table schema mid result last) (hop : mid.1.Readable e₀)
    (hf : (mid.2.store db).catalog.file f.table = .ok f) :
    f.wholePages mid.2.disk ≤ f.wholePages last.2.disk := by
  cases h with
  | ended hpull => exact (congrArg f.wholePages (Lent.of_pull hop hpull).borrows.disk_eq).ge
  | failed hpull => exact (congrArg f.wholePages (Lent.of_pull hop hpull).borrows.disk_eq).ge
  | @blocked op op' e e' n row cause t hpull hinsert =>
    have hborrows := (Lent.of_pull hop hpull).borrows
    have hedits := Store.edits_insertRow (s := e'.store db) (f := f) (by
      rw [(hborrows.store db).reads.catalog_eq]
      exact hf) tx (row.toStore schema)
    rw [hinsert] at hedits
    exact (congrArg f.wholePages hborrows.disk_eq).ge.trans hedits.wholePages_le

/-- If the pages have numbers in the end, they had numbers all along. -/
theorem Stops.countable {result : Except DbError Unit}
    (h : Stops db tx f.table schema mid result last)
    (hfills : Fills db tx f.table schema s rows mid) (hop : s.1.Readable e₀)
    (hf : (s.2.store db).catalog.file f.table = .ok f) (hcount : f.Countable last.2.disk) :
    f.Countable s.2.disk ∧ f.Countable mid.2.disk := by
  obtain ⟨hreadable, hfile, hgrows⟩ := hfills.grows hop hf
  have hmid : f.Countable mid.2.disk := (h.wholePages_le hreadable hfile).trans_lt hcount
  exact ⟨hgrows.trans_lt hmid, hmid⟩

end Operator

end Rowstore
