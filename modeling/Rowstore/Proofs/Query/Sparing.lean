import Mathlib
import Rowstore.Proofs.Query.Lending
import Rowstore.Proofs.Run.Beside

/-!
# Trees over tables that stay the same

Other tables change while a tree is pulled. What it gives depends on the tables that it scans alone:
if they are the same in other databases, `Operator.Untouched`, then so is what is to come from the
tree, `Operator.Untouched.prospect_eq`. Reading leaves them the same, and so do insertions into a
table over another file, `Operator.Beside.untouched_insertRow`.
-/

namespace Rowstore

namespace Operator

variable {allOpen : Prop} {e e' e'' : Engine} {op op' : Operator} {db : Nat} {tx : TxId}
  {table : TableId} {name : String} {f : HeapFile} {row : Tuple}

theorem scans_fresh (op : Operator) : op.fresh.Scans db table ↔ op.Scans db table := by
  induction op with
  | filter p child c ih => exact ih
  | nestedLoop planned p left right schema current c ihl ihr => exact or_congr ihl ihr
  | hashJoin planned p left right schema table pending c ihl ihr => exact or_congr ihl ihr
  | aggregate column group fn child schema results c ih => exact ih
  | insert db tx table tableSchema child done c ih => exact ih
  | delete db tx child done c ih => exact ih
  | _ => rfl

theorem scans_congr (h : op'.fresh = op.fresh) : op'.Scans db table ↔ op.Scans db table := by
  rw [← scans_fresh op', h, scans_fresh]

/-! ### The same tables -/

/-- The tables that a tree scans are the same, and can be read. -/
def Untouched (op : Operator) (e e' : Engine) : Prop :=
  ∀ db table, op.Scans db table → (e.store db).SameTable (e'.store db) table

namespace Untouched

theorem trans (h : op.Untouched e e') (h' : op.Untouched e' e'') : op.Untouched e e'' :=
  fun db table hscans => (h db table hscans).trans (h' db table hscans)

theorem congr (h : op.Untouched e e') (hfresh : op'.fresh = op.fresh) : op'.Untouched e e' :=
  fun db table hscans => h db table ((scans_congr hfresh).1 hscans)

theorem readable (h : op.Untouched e e') (hop : op.Readable e) : op.Readable e' := by
  induction op with
  | rows => trivial
  | scan db table label schema place c =>
    have hsame := h db table ⟨rfl, rfl⟩
    exact ⟨hsame.file_eq.trans hop.1, hsame.faithful.current⟩
  | filter p child c ih => exact ih h hop
  | nestedLoop planned p left right schema current c ihl ihr =>
    exact ⟨ihl (fun db table hs => h db table (.inl hs)) hop.1,
      ihr (fun db table hs => h db table (.inr hs)) hop.2⟩
  | hashJoin planned p left right schema table pending c ihl ihr =>
    exact ⟨ihl (fun db table hs => h db table (.inl hs)) hop.1,
      ihr (fun db table hs => h db table (.inr hs)) hop.2⟩
  | aggregate column group fn child schema results c ih => exact ih h hop
  | insert => exact hop.elim
  | delete => exact hop.elim

/-- The same is to come. -/
theorem prospect_eq (h : op.Untouched e e') (hop : op.Readable e) :
    op.prospect e' = op.prospect e := by
  induction op with
  | rows => rfl
  | scan db table label schema place c =>
    have hsame := h db table ⟨rfl, rfl⟩
    have hplace : (e.store db).SameTable (e'.store db) place.file.table :=
      Catalog.table_of_file hop.1 ▸ hsame
    simp only [prospect, scanFeed, tableFeed, hsame.tableRows_eq, hplace.remaining_eq]
  | filter p child c ih => rw [prospect, prospect, ih h hop]
  | nestedLoop planned p left right schema current c ihl ihr =>
    rw [prospect, prospect, ihl (fun db table hs => h db table (.inl hs)) hop.1,
      ihr (fun db table hs => h db table (.inr hs)) hop.2]
  | hashJoin planned p left right schema table pending c ihl ihr =>
    rw [prospect, prospect, ihl (fun db table hs => h db table (.inl hs)) hop.1,
      ihr (fun db table hs => h db table (.inr hs)) hop.2]
  | aggregate column group fn child schema results c ih => rw [prospect, prospect, ih h hop]
  | insert => exact hop.elim
  | delete => exact hop.elim

theorem course_eq (h : op.Untouched e e') (hop : op.Readable e) : op.course e' = op.course e := by
  induction op with
  | rows => rfl
  | scan db table label schema place c =>
    simp only [course, tableFeed, (h db table ⟨rfl, rfl⟩).tableRows_eq]
  | filter p child c ih => rw [course, course, ih h hop]
  | nestedLoop planned p left right schema current c ihl ihr =>
    rw [course, course, ihl (fun db table hs => h db table (.inl hs)) hop.1,
      ihr (fun db table hs => h db table (.inr hs)) hop.2]
  | hashJoin planned p left right schema table pending c ihl ihr =>
    rw [course, course, ihl (fun db table hs => h db table (.inl hs)) hop.1,
      ihr (fun db table hs => h db table (.inr hs)) hop.2]
  | aggregate column group fn child schema results c ih => rw [course, course, ih h hop]
  | insert => exact hop.elim
  | delete => exact hop.elim

/-- The joins by a table have the tables that they should have, as before. -/
theorem steady_iff (h : op.Untouched e e') (hop : op.Readable e) :
    op.Steady allOpen e' ↔ op.Steady allOpen e := by
  induction op with
  | rows => rfl
  | scan => rfl
  | filter p child c ih => exact and_congr_right' (ih h hop)
  | nestedLoop planned p left right schema current c ihl ihr =>
    exact and_congr_right' (and_congr (ihl (fun db table hs => h db table (.inl hs)) hop.1)
      (ihr (fun db table hs => h db table (.inr hs)) hop.2))
  | hashJoin planned p left right schema table pending c ihl ihr =>
    have hleft : left.Untouched e e' := fun db table hs => h db table (.inl hs)
    have hright : right.Untouched e e' := fun db table hs => h db table (.inr hs)
    refine and_congr_right' (and_congr (ihl hleft hop.1) (and_congr (ihr hright hop.2) ?_))
    rw [hleft.course_eq hop.1, hleft.prospect_eq hop.1]
  | aggregate column group fn child schema results c ih => exact and_congr_right' (ih h hop)
  | insert => rfl
  | delete => rfl

end Untouched

/-! ### What leaves them the same -/

/-- A tree only reads, from tables that can be read and are over other files than one. -/
structure Beside (op : Operator) (e : Engine) (name : String) : Prop where
  readable : op.Readable e
  faithful : ∀ {db table}, op.Scans db table → (e.store db).Faithful table
  apart : ∀ {db table f}, op.Scans db table → (e.store db).catalog.file table = .ok f →
    f.name ≠ name

theorem Readable.exists_file (h : op.Readable e) (hscans : op.Scans db table) :
    ∃ f, (e.store db).catalog.file table = .ok f := by
  induction op with
  | rows => exact hscans.elim
  | scan db' table' label schema place c =>
    obtain ⟨rfl, rfl⟩ := hscans
    exact ⟨place.file, h.1⟩
  | filter p child c ih => exact ih h hscans
  | nestedLoop planned p left right schema current c ihl ihr =>
    exact hscans.elim (ihl h.1) (ihr h.2)
  | hashJoin planned p left right schema table pending c ihl ihr =>
    exact hscans.elim (ihl h.1) (ihr h.2)
  | aggregate column group fn child schema results c ih => exact ih h hscans
  | insert => exact h.elim
  | delete => exact h.elim

namespace Beside

theorem untouched (h : op.Beside e name) : op.Untouched e e :=
  fun _ _ hscans => (h.faithful hscans).sameTable

theorem of_untouched (h : op.Beside e name) (huntouched : op.Untouched e e') :
    op.Beside e' name where
  readable := huntouched.readable h.readable
  faithful := fun hscans => (huntouched _ _ hscans).faithful
  apart := fun hscans hf => h.apart hscans ((huntouched _ _ hscans).file_eq ▸ hf)

/-- Whoever reads leaves the tables as they are. -/
theorem untouched_of_borrows (h : op.Beside e name) (hborrows : e.Borrows e') :
    op.Untouched e e' := fun db _ hscans =>
  (hborrows.store db).reads.sameTable (h.faithful hscans)

/-- So does an insertion into a table over the file, whatever it comes to. -/
theorem untouched_insertRow (h : op.Beside e f.name) (hs : (e.store db).Backed)
    (hf : (e.store db).catalog.file f.table = .ok f) (hrow : row.Complete)
    (hcount : f.Countable e.disk) :
    op.Untouched e (e.setStore db ((e.store db).insertRow tx f.table row).2) := by
  intro other table hscans
  obtain ⟨g, hg⟩ := h.readable.exists_file hscans
  exact Engine.sameTable_insertRow hs hf hrow hcount hg (h.apart hscans hg) (h.faithful hscans)

end Beside

end Operator

end Rowstore
