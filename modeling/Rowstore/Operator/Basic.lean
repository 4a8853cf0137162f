import Rowstore.Aggregator
import Rowstore.Engine
import Rowstore.Predicate

/-!
# Operators

A query is a tree of operators, each of which gives rows one at a time. Here are the tree, how it
is built, and what can be asked of it; how rows are pulled from it is told elsewhere.

* Every operator has a cursor: whether it is open, and a row that was looked at and not yet taken.
* A join by equality keeps the left rows in a table, from the first pull until it is closed. Any
  other join goes through the right rows once for each left row.
* An aggregate, an insertion or a deletion does all its work at the first pull.
* Children can be replaced. An operator takes as many as it uses, and keeps its own when they are
  too few or when it cannot work on them.
-/

namespace Rowstore

/-- Whether an operator is open, and the row that was looked at. -/
structure Cursor where
  isOpen : Bool := false
  peeked : Option Tuple := none
deriving DecidableEq

namespace Cursor

/-- Mark as open or closed. Closing drops the row that was looked at. -/
def setOpen (c : Cursor) (isOpen : Bool) : Cursor :=
  { isOpen, peeked := if isOpen then c.peeked else none }

/-- Drop the row that was looked at. -/
def clear (c : Cursor) : Cursor := { c with peeked := none }

end Cursor

/-- A tree of operators, with what each of them knows of its rows. -/
inductive Operator
  /-- Rows in memory; `rest` are those still to come. -/
  | rows (schema : Schema) (all rest : List Tuple) (cursor : Cursor)
  /-- The rows of a table, under an alias. -/
  | scan (db : Nat) (table : TableId) (label : String) (schema : Schema) (scan : Scan)
    (cursor : Cursor)
  /-- The rows of the child that satisfy a predicate. -/
  | filter (predicate : Predicate) (child : Operator) (cursor : Cursor)
  /-- A join that tries all pairs; `current` is the left row under way. A join is `planned` if its
  kind was picked for its predicate. -/
  | nestedLoop (planned : Bool) (predicate : JoinPredicate) (left right : Operator)
    (schema : Schema) (current : Option Tuple) (cursor : Cursor)
  /-- A join by equality; `table` are the left rows by value, `pending` the rows not yet given. -/
  | hashJoin (planned : Bool) (predicate : JoinPredicate) (left right : Operator)
    (schema : Schema) (table : Option (List (Value × Tuple))) (pending : List Tuple)
    (cursor : Cursor)
  /-- A column of the child summarised; `results` are the rows still to come. -/
  | aggregate (column : Nat) (group : Option Nat) (fn : AggregateFunction) (child : Operator)
    (schema : Schema) (results : Option (List Tuple)) (cursor : Cursor)
  /-- The child's rows put into a table of the given schema. -/
  | insert (db : Nat) (tx : TxId) (table : TableId) (tableSchema : Schema) (child : Operator)
    (done : Bool) (cursor : Cursor)
  /-- The child's rows deleted. -/
  | delete (db : Nat) (tx : TxId) (child : Operator) (done : Bool) (cursor : Cursor)

namespace Operator

/-- The columns of an insertion's or deletion's one row: a count. -/
def countSchema : Schema := .single ⟨.int, none⟩

/-- The columns of the rows an operator gives. -/
def schema : Operator → Schema
  | rows schema .. | scan _ _ _ schema .. => schema
  | filter _ child _ => child.schema
  | nestedLoop _ _ _ _ schema .. | hashJoin _ _ _ _ schema .. => schema
  | aggregate _ _ _ _ schema .. => schema
  | insert .. | delete .. => countSchema

/-- The cursor of an operator. -/
def cursor : Operator → Cursor
  | rows _ _ _ c | scan _ _ _ _ _ c | filter _ _ c | nestedLoop _ _ _ _ _ _ c
  | hashJoin _ _ _ _ _ _ _ c | aggregate _ _ _ _ _ _ c | insert _ _ _ _ _ _ c
  | delete _ _ _ _ c => c

/-- The operator with its cursor changed. -/
def mapCursor (change : Cursor → Cursor) : Operator → Operator
  | rows schema all rest c => rows schema all rest (change c)
  | scan db table label schema place c => scan db table label schema place (change c)
  | filter predicate child c => filter predicate child (change c)
  | nestedLoop planned predicate left right schema current c =>
    nestedLoop planned predicate left right schema current (change c)
  | hashJoin planned predicate left right schema table pending c =>
    hashJoin planned predicate left right schema table pending (change c)
  | aggregate column group fn child schema results c =>
    aggregate column group fn child schema results (change c)
  | insert db tx table tableSchema child done c =>
    insert db tx table tableSchema child done (change c)
  | delete db tx child done c => delete db tx child done (change c)

/-- Mark an operator alone, and not its children, as open or closed. -/
def setOpen (op : Operator) (isOpen : Bool) : Operator := op.mapCursor fun c => c.setOpen isOpen

/-- Drop the row that was looked at. -/
def clear (op : Operator) : Operator := op.mapCursor Cursor.clear

/-- Keep a row, or none, as the one that was looked at. -/
def setPeeked (op : Operator) (row : Option Tuple) : Operator :=
  op.mapCursor fun c => { c with peeked := row }

/-- The operators that an operator takes its rows from. -/
def children : Operator → List Operator
  | rows .. | scan .. => []
  | filter _ child _ | aggregate _ _ _ child .. | insert _ _ _ _ child .. | delete _ _ child .. =>
    [child]
  | nestedLoop _ _ left right .. | hashJoin _ _ left right .. => [left, right]

/-! ### Building -/

/-- Rows in memory. -/
def ofRows (schema : Schema) (all : List Tuple) : Operator := rows schema all all {}

/-- The rows of a table, its column names under an alias. -/
def ofTable (e : Engine) (db : Nat) (tx : TxId) (table : TableId) (label : String) :
    Except DbError Operator := do
  let file ← (e.store db).catalog.file table
  return scan db table label (file.schema.qualified label) (file.scan tx) {}

/-- The rows of a table, its column names under its own name. -/
def ofNamedTable (e : Engine) (db : Nat) (tx : TxId) (table : TableId) :
    Except DbError Operator := do
  let name ← (e.store db).catalog.tableName table
  ofTable e db tx table name

/-- The rows that satisfy a predicate. -/
def filtered (predicate : Predicate) (child : Operator) : Operator := filter predicate child {}

/-- The pairs that satisfy a predicate, found by trying all of them. -/
def looped (predicate : JoinPredicate) (left right : Operator) : Operator :=
  nestedLoop false predicate left right (left.schema.merge right.schema) none {}

/-- The pairs with equal columns, found by a table of the left rows. -/
def hashed (predicate : JoinPredicate) (left right : Operator) : Operator :=
  hashJoin false predicate left right (left.schema.merge right.schema) none [] {}

/-- The pairs that satisfy a predicate, found by a table if the predicate is an equality. -/
def join (predicate : JoinPredicate) (left right : Operator) : Operator :=
  let schema := left.schema.merge right.schema
  if predicate.op = .equal then hashJoin true predicate left right schema none [] {}
  else nestedLoop true predicate left right schema none {}

/-- The columns of an aggregate: the grouping column, if any, and `fn(column)`. -/
def aggregateSchema (input : Schema) (column : Nat) (group : Option Nat)
    (fn : AggregateFunction) : Except DbError Schema := do
  let summarised ← input.column column
  if summarised.type = .str ∧ fn ≠ .count then throw (.illegalAggregate fn .str)
  let result : Column := ⟨.int, some (fn.text ++ "(" ++ summarised.name.getD "null" ++ ")")⟩
  match group with
  | none => return .single result
  | some g =>
    let grouping ← input.column g
    return .pair grouping result

/-- A column summarised, for each value of another column if one is given. -/
def aggregated (child : Operator) (column : Nat) (group : Option Nat) (fn : AggregateFunction) :
    Except DbError Operator := do
  let schema ← aggregateSchema child.schema column group fn
  return aggregate column group fn child schema none {}

/-- An insertion of the child's rows into a table, which must have the same shape. -/
def inserting (e : Engine) (db : Nat) (tx : TxId) (table : TableId) (child : Operator) :
    Except DbError Operator := do
  let tableSchema ← (e.store db).catalog.schema table
  if ¬ child.schema.SameShape tableSchema then
    throw (.schemaMismatch tableSchema.text child.schema.text)
  return insert db tx table tableSchema child false {}

/-- A deletion of the child's rows. -/
def deleting (db : Nat) (tx : TxId) (child : Operator) : Operator := delete db tx child false {}

/-- The results of a summary, as rows in memory. -/
def ofAggregator (a : Aggregator) : Except DbError Operator :=
  a.rows.map fun results => ofRows a.schema results

/-- The operator over other children. -/
def setChildren : Operator → List Operator → Operator
  | filter predicate _ c, child :: _ => filter predicate child c
  | nestedLoop planned predicate _ _ _ _ c, left :: right :: _ =>
    nestedLoop planned predicate left right (left.schema.merge right.schema) none c
  | hashJoin planned predicate _ _ _ _ _ c, left :: right :: _ =>
    hashJoin planned predicate left right (left.schema.merge right.schema) none [] c
  | aggregate column group fn old schema results c, child :: _ =>
    match aggregateSchema child.schema column group fn with
    | .ok schema => aggregate column group fn child schema none c
    | .error _ => aggregate column group fn old schema results c
  | insert db tx table tableSchema old done c, child :: _ =>
    insert db tx table tableSchema
      (if child.schema.SameShape tableSchema then child else old) done c
  | delete db tx _ done c, child :: _ => delete db tx child done c
  | op, _ => op

/-! ### Cursors -/

@[simp] theorem cursor_mapCursor (change : Cursor → Cursor) (op : Operator) :
    (op.mapCursor change).cursor = change op.cursor := by cases op <;> rfl

@[simp] theorem schema_mapCursor (change : Cursor → Cursor) (op : Operator) :
    (op.mapCursor change).schema = op.schema := by cases op <;> rfl

@[simp] theorem children_mapCursor (change : Cursor → Cursor) (op : Operator) :
    (op.mapCursor change).children = op.children := by cases op <;> rfl

end Operator

end Rowstore
