import Mathlib
import Rowstore.Proofs.Query.Fresh
import Rowstore.Proofs.Query.Summary

/-!
# What queries ask for

The rows that a tree of operators stands for, `Operator.answer`, as a list made from the lists of
its children. A scan stands for the rows of its table in page order and slot order, a nested loop
for the pairs with the left row leading, a join by a table for those with the right row leading, and
an aggregate for one row for each group.

The trees that are queries are those put together from the constructors of the operators that do not
change data, `Operator.Built`. The pages of a table are counted with a number of limited width, and
`Operator.answer` is about those that are counted. They are all of them, as in
`Operator.fullAnswer`, unless a file has as many pages as there are page numbers.
-/

namespace Rowstore

/-- A row of a table, under the column names of a schema. -/
def Row.under (schema : Schema) (r : Row) : Tuple := ⟨schema, r.values, r.record⟩

/-- A row satisfies a predicate. -/
def Predicate.accepts (p : Predicate) (row : Tuple) : Bool :=
  match p.holds row with
  | .ok holds => holds
  | .error _ => false

theorem Predicate.accepts_of_holds {p : Predicate} {row : Tuple} {holds : Bool}
    (h : p.holds row = .ok holds) : p.accepts row = holds := by rw [accepts, h]

namespace JoinPredicate

variable {p : JoinPredicate} {l r : Tuple}

/-- Two rows satisfy a join predicate. -/
def accepts (p : JoinPredicate) (l r : Tuple) : Bool :=
  match p.holds l r with
  | .ok holds => holds
  | .error _ => false

theorem accepts_of_holds {holds : Bool} (h : p.holds l r = .ok holds) :
    p.accepts l r = holds := by rw [accepts, h]

/-- The columns that a join predicate names have one value in two rows. -/
def sameKey (p : JoinPredicate) (l r : Tuple) : Bool :=
  match l.field p.left, r.field p.right with
  | .ok a, .ok b => a = b
  | _, _ => false

/-- A left row joined with each of the right rows that satisfy the predicate with it. -/
def matchesOf (p : JoinPredicate) (l : Tuple) (rs : List Tuple) : List Tuple :=
  (rs.filter fun r => p.accepts l r).map l.concat

/-- For each left row, for each right row, the two joined if they satisfy the predicate. -/
def loopRows (p : JoinPredicate) (ls rs : List Tuple) : List Tuple :=
  ls.flatMap fun l => p.matchesOf l rs

/-- A right row joined with each of the left rows that have an equal key. -/
def partnersOf (p : JoinPredicate) (ls : List Tuple) (r : Tuple) : List Tuple :=
  (ls.filter fun l => p.sameKey l r).map fun l => l.concat r

/-- For each right row, for each left row with an equal key, the two joined. -/
def hashRows (p : JoinPredicate) (ls rs : List Tuple) : List Tuple :=
  rs.flatMap fun r => p.partnersOf ls r

variable {ls rs : List Tuple}

theorem matchesOf_cons_of_pos (h : p.accepts l r = true) :
    p.matchesOf l (r :: rs) = l.concat r :: p.matchesOf l rs := by
  rw [matchesOf, List.filter_cons_of_pos h, List.map_cons, matchesOf]

theorem matchesOf_cons_of_neg (h : p.accepts l r = false) :
    p.matchesOf l (r :: rs) = p.matchesOf l rs := by
  rw [matchesOf, List.filter_cons_of_neg (by simp [h]), matchesOf]

theorem loopRows_cons : p.loopRows (l :: ls) rs = p.matchesOf l rs ++ p.loopRows ls rs := by
  rw [loopRows, List.flatMap_cons, loopRows]

theorem hashRows_cons : p.hashRows ls (r :: rs) = p.partnersOf ls r ++ p.hashRows ls rs := by
  rw [hashRows, List.flatMap_cons, hashRows]

/-- The left rows with their keys, if all of them have one. -/
def keyed (p : JoinPredicate) (ls : List Tuple) : Except DbError (List (Value × Tuple)) :=
  ls.mapM fun l => (l.field p.left).map fun key => (key, l)

theorem keyed_eq_ok (h : ∀ l ∈ ls, ∃ key, l.field p.left = .ok key) :
    ∃ table, p.keyed ls = .ok table := by
  induction ls with
  | nil => exact ⟨[], rfl⟩
  | cons l ls ih =>
    obtain ⟨key, hkey⟩ := h l List.mem_cons_self
    obtain ⟨table, htable⟩ := ih fun l hl => h l (List.mem_cons_of_mem _ hl)
    refine ⟨(key, l) :: table, ?_⟩
    rw [keyed] at htable ⊢
    rw [List.mapM_cons, hkey, htable]
    rfl

/-- The partners of a right row are found in the table by its key. -/
theorem partnersOf_eq {table : List (Value × Tuple)} (h : p.keyed ls = .ok table) {key : Value}
    (hkey : r.field p.right = .ok key) :
    ((table.filter fun entry => entry.1 = key).map fun entry => entry.2.concat r) =
      p.partnersOf ls r := by
  induction ls generalizing table with
  | nil =>
    cases h
    rfl
  | cons l ls ih =>
    rw [keyed, List.mapM_cons] at h
    obtain ⟨entry, hentry, h⟩ := bind_eq_ok_iff.1 h
    obtain ⟨rest, hrest, h⟩ := bind_eq_ok_iff.1 h
    cases h
    cases hfield : l.field p.left with
    | error cause =>
      rw [hfield] at hentry
      cases hentry
    | ok key' =>
      rw [hfield] at hentry
      cases hentry
      have hsame : p.sameKey l r = decide (key' = key) := by rw [sameKey, hfield, hkey]
      rw [partnersOf, List.filter_cons, List.filter_cons, hsame]
      by_cases hequal : key' = key
      · simp only [hequal, decide_true, if_true, List.map_cons]
        exact congrArg _ (ih hrest)
      · simp only [hequal, decide_false, Bool.false_eq_true, if_false]
        exact ih hrest

end JoinPredicate

namespace Operator

/-! ### Taking rows -/

/-- Put a left row with its key behind others. -/
def addKeyed (column : Nat) (table : List (Value × Tuple)) (row : Tuple) :
    Except DbError (List (Value × Tuple)) :=
  (row.field column).map fun key => table ++ [(key, row)]

theorem takeKeyed_eq (column : Nat) (table : List (Value × Tuple)) (row : Tuple) (e : Engine) :
    takeKeyed column table row e =
      Outcome.ofExcept e ((addKeyed column table row).map fun table => (table, e)) := by
  unfold takeKeyed addKeyed
  cases row.field column <;> rfl

theorem foldlM_addKeyed (p : JoinPredicate) (table : List (Value × Tuple)) (ls : List Tuple) :
    ls.foldlM (addKeyed p.left) table = (p.keyed ls).map fun rest => table ++ rest := by
  induction ls generalizing table with
  | nil =>
    show Except.ok table = Except.ok (table ++ [])
    rw [List.append_nil]
  | cons l ls ih =>
    rw [List.foldlM_cons, JoinPredicate.keyed, List.mapM_cons, addKeyed]
    cases l.field p.left with
    | error cause => rfl
    | ok key =>
      show ls.foldlM (addKeyed p.left) (table ++ [(key, l)]) = _
      rw [ih, JoinPredicate.keyed]
      cases ls.mapM fun l => (l.field p.left).map fun key => (key, l) with
      | error cause => rfl
      | ok rest =>
        show Except.ok (table ++ [(key, l)] ++ rest) = Except.ok (table ++ ((key, l) :: rest))
        rw [List.append_assoc]
        rfl

theorem takeSummary_eq (a : Aggregator) (row : Tuple) (e : Engine) :
    takeSummary a row e = Outcome.ofExcept e ((a.merge row).map fun a => (a, e)) := rfl

/-- The rows that sum up some rows. -/
def summaryOf (input : Schema) (column : Nat) (group : Option Nat) (fn : AggregateFunction)
    (rows : List Tuple) : Except DbError (List Tuple) := do
  let a ← newAggregator input column group fn
  a.summary rows

/-- A summary begins without groups. -/
theorem groups_newAggregator {input : Schema} {column : Nat} {group : Option Nat}
    {fn : AggregateFunction} {a : Aggregator} (h : newAggregator input column group fn = .ok a) :
    a.groups = [] := by
  have hnew : ∀ grouping, (do
      let summarised ← input.column column
      Aggregator.new summarised.type grouping column fn) = .ok a → a.groups = [] := by
    intro grouping h
    obtain ⟨summarised, -, h⟩ := bind_eq_ok_iff.1 h
    unfold Aggregator.new at h
    split at h
    · cases h
    · cases h
      rfl
  cases group with
  | none => exact hnew none h
  | some g =>
    obtain ⟨grouping, -, h⟩ := bind_eq_ok_iff.1 h
    exact hnew _ h

/-- Rows are summed up by taking them into a new summary one after another. -/
theorem summaryOf_eq {input : Schema} {column : Nat} {group : Option Nat}
    {fn : AggregateFunction} {a : Aggregator} (h : newAggregator input column group fn = .ok a)
    (rows : List Tuple) :
    summaryOf input column group fn rows = rows.foldlM Aggregator.merge a >>= Aggregator.rows := by
  rw [summaryOf, h, Aggregator.rows_of_foldlM (groups_newAggregator h)]
  rfl

/-! ### Queries -/

/-- The rows that a tree of operators stands for, given the rows of the tables. -/
def answerOver (rowsOf : Nat → TableId → List Row) : Operator → List Tuple
  | rows _ all _ _ => all
  | scan db table _ schema _ _ => (rowsOf db table).map fun r => r.under schema
  | filter p child _ => (child.answerOver rowsOf).filter fun row => p.accepts row
  | nestedLoop _ p left right _ _ _ =>
    p.loopRows (left.answerOver rowsOf) (right.answerOver rowsOf)
  | hashJoin _ p left right _ _ _ _ =>
    p.hashRows (left.answerOver rowsOf) (right.answerOver rowsOf)
  | aggregate column group fn child schema _ _ =>
    match summaryOf child.schema column group fn (child.answerOver rowsOf) with
    | .ok results => results.map fun row => row.relabel schema
    | .error _ => []
  | insert .. | delete .. => []

/-- The rows that a tree stands for, over the pages of its tables that are counted. -/
def answer (e : Engine) (op : Operator) : List Tuple :=
  op.answerOver fun db table => (e.store db).tableRows table

/-- The rows that a tree stands for, over all whole pages of its tables. -/
def fullAnswer (e : Engine) (op : Operator) : List Tuple :=
  op.answerOver fun db table => (e.store db).allRows table

/-- No call can fail: there are no scans, and every column that is looked at has a value. -/
def Total (e : Engine) : Operator → Prop
  | rows .. => True
  | scan .. => False
  | filter p child _ => child.Total e ∧ ∀ row ∈ child.answer e, ∃ holds, p.holds row = .ok holds
  | nestedLoop _ p left right _ _ _ => left.Total e ∧ right.Total e ∧
      ∀ l ∈ left.answer e, ∀ r ∈ right.answer e, ∃ holds, p.holds l r = .ok holds
  | hashJoin _ p left right _ _ _ _ => left.Total e ∧ right.Total e ∧
      (∀ l ∈ left.answer e, ∃ key, l.field p.left = .ok key) ∧
      ∀ r ∈ right.answer e, ∃ key, r.field p.right = .ok key
  | aggregate column group fn child _ _ _ => child.Total e ∧
      ∃ results, summaryOf child.schema column group fn (child.answer e) = .ok results
  | insert .. | delete .. => False

/-- The trees put together from operators that do not change data. -/
inductive Built (e : Engine) : Operator → Prop
  | rows (schema : Schema) (all : List Tuple) : Built e (ofRows schema all)
  | scan {db : Nat} {tx : TxId} {table : TableId} {label : String} {op : Operator}
      (h : ofTable e db tx table label = .ok op) : Built e op
  | filter (p : Predicate) {child : Operator} (h : Built e child) : Built e (filtered p child)
  | loop (p : JoinPredicate) {left right : Operator} (hl : Built e left) (hr : Built e right) :
      Built e (looped p left right)
  | hash (p : JoinPredicate) {left right : Operator} (hl : Built e left) (hr : Built e right) :
      Built e (hashed p left right)
  | join (p : JoinPredicate) {left right : Operator} (hl : Built e left) (hr : Built e right) :
      Built e (join p left right)
  | aggregate {column : Nat} {group : Option Nat} {fn : AggregateFunction} {child op : Operator}
      (h : Built e child) (hop : aggregated child column group fn = .ok op) : Built e op

/-- A tree reads a table of a database. -/
def Scans (db : Nat) (table : TableId) : Operator → Prop
  | rows .. => False
  | scan db' table' .. => db' = db ∧ table' = table
  | filter _ child _ | aggregate _ _ _ child _ _ _ | insert _ _ _ _ child _ _
  | delete _ _ child _ _ => child.Scans db table
  | nestedLoop _ _ left right _ _ _ | hashJoin _ _ left right _ _ _ _ =>
    left.Scans db table ∨ right.Scans db table

variable {e : Engine} {op : Operator}

/-- What a tree stands for depends on the rows of the tables that it reads. -/
theorem answerOver_congr {rowsOf rowsOf' : Nat → TableId → List Row}
    (h : ∀ db table, op.Scans db table → rowsOf db table = rowsOf' db table) :
    op.answerOver rowsOf = op.answerOver rowsOf' := by
  induction op with
  | rows => rfl
  | scan db table label schema place c => rw [answerOver, answerOver, h db table ⟨rfl, rfl⟩]
  | filter p child c ih => rw [answerOver, answerOver, ih h]
  | nestedLoop planned p left right schema current c ihl ihr =>
    rw [answerOver, answerOver, ihl fun db table hl => h db table (.inl hl),
      ihr fun db table hr => h db table (.inr hr)]
  | hashJoin planned p left right schema table pending c ihl ihr =>
    rw [answerOver, answerOver, ihl fun db table hl => h db table (.inl hl),
      ihr fun db table hr => h db table (.inr hr)]
  | aggregate column group fn child schema results c ih => rw [answerOver, answerOver, ih h]
  | insert => rfl
  | delete => rfl

/-- If the tables have no more pages than there are page numbers, no row is left out. -/
theorem answer_eq_fullAnswer (h : ∀ db table f, op.Scans db table →
    (e.store db).catalog.file table = .ok f → f.Countable e.disk) :
    op.answer e = op.fullAnswer e :=
  answerOver_congr fun db table hscans =>
    Store.tableRows_eq_allRows fun f hf => h db table f hscans hf

end Operator

end Rowstore
