import Rowstore.Operator.Basic

/-!
# Pulling rows from operators

How a tree of operators is opened, closed and rewound, and how rows are pulled from it.

* `Operator.fetch` makes the next row. It works in a number of steps that the caller bounds, since
  the trees of operators have no bound of their own: an insertion may feed on what it inserts.
* `Operator.hasNext` and `Operator.next` are `fetch` behind the cursor: an operator that is not open
  refuses, and a row that was looked at is given before another is made.
* A failure ends the pull where it is. What was done before it stays done, in the tree and in the
  databases.
-/

namespace Rowstore

namespace Operator

/-- What a pull comes to: a value or a failure, the tree after it, and the databases. -/
abbrev Pulled (α : Type) := Outcome (Operator × Engine) α

/-- A child's state put back into its parent. -/
@[inline] def under (parent : Operator → Operator) (state : Operator × Engine) :
    Operator × Engine :=
  (parent state.1, state.2)

/-! ### Opening, closing, rewinding -/

/-- Open the tree. -/
def start : Operator → Engine → Pulled Unit
  | rows schema all _ c, e => (.ok (), rows schema all all (c.setOpen true), e)
  | scan db table label schema place c, e =>
    let (result, place, s) := place.start (e.store db)
    let e := e.setStore db s
    match result with
    | .ok () => (.ok (), scan db table label schema place (c.setOpen true), e)
    | .error cause => (.error cause, scan db table label schema place c, e)
  | filter predicate child c, e =>
    (child.start e).andThen (under (filter predicate · c)) fun _ (child, e) =>
      (.ok (), filter predicate child (c.setOpen true), e)
  | nestedLoop planned predicate left right schema current c, e =>
    (left.start e).andThen
      (under (nestedLoop planned predicate · right schema current c)) fun _ (left, e) =>
    (right.start e).andThen
      (under (nestedLoop planned predicate left · schema current c)) fun _ (right, e) =>
      (.ok (), nestedLoop planned predicate left right schema none (c.setOpen true), e)
  | hashJoin planned predicate left right schema table pending c, e =>
    (left.start e).andThen
      (under (hashJoin planned predicate · right schema table pending c)) fun _ (left, e) =>
    (right.start e).andThen
      (under (hashJoin planned predicate left · schema table pending c)) fun _ (right, e) =>
      (.ok (), hashJoin planned predicate left right schema table pending (c.setOpen true), e)
  | aggregate column group fn child schema results c, e =>
    (child.start e).andThen
      (under (aggregate column group fn · schema results c)) fun _ (child, e) =>
      (.ok (), aggregate column group fn child schema none (c.setOpen true), e)
  | insert db tx table tableSchema child done c, e =>
    (child.start e).andThen (under (insert db tx table tableSchema · done c)) fun _ (child, e) =>
      (.ok (), insert db tx table tableSchema child false (c.setOpen true), e)
  | delete db tx child done c, e =>
    (child.start e).andThen (under (delete db tx · done c)) fun _ (child, e) =>
      (.ok (), delete db tx child false (c.setOpen true), e)

/-- Close the tree. -/
def close : Operator → Operator
  | rows schema all rest c => rows schema all rest (c.setOpen false)
  | scan db table label schema place c =>
    scan db table label schema place.close (c.setOpen false)
  | filter predicate child c => filter predicate child.close (c.setOpen false)
  | nestedLoop planned predicate left right schema _ c =>
    nestedLoop planned predicate left.close right.close schema none (c.setOpen false)
  | hashJoin planned predicate left right schema _ _ c =>
    hashJoin planned predicate left.close right.close schema none [] (c.setOpen false)
  | aggregate column group fn child schema _ c =>
    aggregate column group fn child.close schema none (c.setOpen false)
  | insert db tx table tableSchema child done c =>
    insert db tx table tableSchema child.close done (c.setOpen false)
  | delete db tx child done c => delete db tx child.close done (c.setOpen false)

/-- Go back to the first row. A join by equality keeps its table and goes back on the right only. -/
def rewind : Operator → Engine → Pulled Unit
  | rows schema all _ c, e => (.ok (), rows schema all all c.clear, e)
  | scan db table label schema place c, e =>
    let (result, place, s) := place.rewind (e.store db)
    let e := e.setStore db s
    match result with
    | .ok () => (.ok (), scan db table label schema place c.clear, e)
    | .error cause => (.error cause, scan db table label schema place c, e)
  | filter predicate child c, e =>
    (child.rewind e).andThen (under (filter predicate · c)) fun _ (child, e) =>
      (.ok (), filter predicate child c.clear, e)
  | nestedLoop planned predicate left right schema current c, e =>
    (left.rewind e).andThen
      (under (nestedLoop planned predicate · right schema current c)) fun _ (left, e) =>
    (right.rewind e).andThen
      (under (nestedLoop planned predicate left · schema current c)) fun _ (right, e) =>
      (.ok (), nestedLoop planned predicate left right schema none c.clear, e)
  | hashJoin planned predicate left right schema table pending c, e =>
    (right.rewind e).andThen
      (under (hashJoin planned predicate left · schema table pending c)) fun _ (right, e) =>
      (.ok (), hashJoin planned predicate left right schema table [] c.clear, e)
  | aggregate column group fn child schema results c, e =>
    (child.rewind e).andThen
      (under (aggregate column group fn · schema results c)) fun _ (child, e) =>
      (.ok (), aggregate column group fn child schema none c.clear, e)
  | insert db tx table tableSchema child done c, e =>
    (child.rewind e).andThen (under (insert db tx table tableSchema · done c)) fun _ (child, e) =>
      (.ok (), insert db tx table tableSchema child false c.clear, e)
  | delete db tx child done c, e =>
    (child.rewind e).andThen (under (delete db tx · done c)) fun _ (child, e) =>
      (.ok (), delete db tx child false c.clear, e)

/-! ### Behind the cursor -/

/-- Take a row from an operator that makes its rows so: the one that was looked at, or else the
next. -/
def pullWith (fetch : Operator → Engine → Pulled (Option Tuple)) (op : Operator) (e : Engine) :
    Pulled (Option Tuple) :=
  if ¬ op.cursor.isOpen then (.error .operatorNotOpen, op, e)
  else match op.cursor.peeked with
    | some row => (.ok (some row), op.clear, e)
    | none => fetch op e

/-- Take all rows of an operator in turn, over at most so many rows. -/
def drainWith {σ : Type} (pull : Operator → Engine → Pulled (Option Tuple))
    (take : σ → Tuple → Engine → Outcome Engine σ) :
    Nat → σ → Operator → Engine → Pulled σ
  | 0, _, op, e => (.error .unfinished, op, e)
  | steps + 1, state, op, e =>
    (pull op e).andThen id fun
      | none, (op, e) => (.ok state, op, e)
      | some row, (op, e) =>
        (take state row e).andThen (fun e => (op, e)) fun state e =>
          drainWith pull take steps state op e

/-- Put a left row into the table of a join by equality. -/
def takeKeyed (column : Nat) (table : List (Value × Tuple)) (row : Tuple) (e : Engine) :
    Outcome Engine (List (Value × Tuple)) :=
  Outcome.ofExcept e ((row.field column).map fun key => (table ++ [(key, row)], e))

/-- Take a row into a summary. -/
def takeSummary (a : Aggregator) (row : Tuple) (e : Engine) : Outcome Engine Aggregator :=
  Outcome.ofExcept e ((a.merge row).map fun a => (a, e))

/-- Put a row into a table, under the table's column names and without its record. -/
def takeInsert (db : Nat) (tx : TxId) (table : TableId) (schema : Schema) (count : Nat)
    (row : Tuple) (e : Engine) : Outcome Engine Nat :=
  (e.run db fun s =>
    s.insertRow tx table { row.relabel schema with record := none }).andThen id
    fun _ e => (.ok (count + 1), e)

/-- Delete a row. -/
def takeDelete (db : Nat) (tx : TxId) (count : Nat) (row : Tuple) (e : Engine) :
    Outcome Engine Nat :=
  (e.run db fun s => s.deleteRow tx row).andThen id fun _ e => (.ok (count + 1), e)

/-- The row that tells a count. -/
def countRow (count : Nat) : Tuple := Tuple.ofList countSchema [.int (Int32.ofNat count)]

/-- The summary that an aggregate over rows of a schema begins with. -/
def newAggregator (input : Schema) (column : Nat) (group : Option Nat)
    (fn : AggregateFunction) : Except DbError Aggregator := do
  let grouping ← match group with
    | none => pure none
    | some g => do
      let grouping ← input.column g
      pure (some (g, grouping.type))
  let summarised ← input.column column
  Aggregator.new summarised.type grouping column fn

/-- Make the next row, or none at the end, in at most so many steps. -/
def fetch : Nat → Operator → Engine → Pulled (Option Tuple)
  | 0, op, e => (.error .unfinished, op, e)
  | _ + 1, rows schema all [] c, e => (.ok none, rows schema all [] c, e)
  | _ + 1, rows schema all (row :: rest) c, e => (.ok (some row), rows schema all rest c, e)
  | _ + 1, scan db table label schema place c, e =>
    let (result, place, s) := place.hasNext (e.store db)
    match result with
    | .error cause => (.error cause, scan db table label schema place c, e.setStore db s)
    | .ok false => (.ok none, scan db table label schema place c, e.setStore db s)
    | .ok true =>
      let (result, place, s) := place.next s
      (result.map fun row => some (row.relabel schema),
        scan db table label schema place c, e.setStore db s)
  | n + 1, filter predicate child c, e =>
    (pullWith (fetch n) child e).andThen (under (filter predicate · c)) fun
      | none, (child, e) => (.ok none, filter predicate child c, e)
      | some row, (child, e) =>
        match predicate.holds row with
        | .error cause => (.error cause, filter predicate child c, e)
        | .ok true => (.ok (some row), filter predicate child c, e)
        | .ok false => fetch n (filter predicate child c) e
  | n + 1, nestedLoop planned predicate left right schema none c, e =>
    (pullWith (fetch n) left e).andThen
      (under (nestedLoop planned predicate · right schema none c)) fun
      | none, (left, e) =>
        (.ok none, nestedLoop planned predicate left right schema none c, e)
      | some row, (left, e) =>
        fetch n (nestedLoop planned predicate left right schema (some row) c) e
  | n + 1, nestedLoop planned predicate left right schema (some row) c, e =>
    (pullWith (fetch n) right e).andThen
      (under (nestedLoop planned predicate left · schema (some row) c)) fun
      | some other, (right, e) =>
        match predicate.holds row other with
        | .error cause =>
          (.error cause, nestedLoop planned predicate left right schema (some row) c, e)
        | .ok true =>
          (.ok (some (row.concat other)),
            nestedLoop planned predicate left right schema (some row) c, e)
        | .ok false => fetch n (nestedLoop planned predicate left right schema (some row) c) e
      | none, (right, e) =>
        (right.rewind e).andThen
          (under (nestedLoop planned predicate left · schema (some row) c)) fun _ (right, e) =>
          fetch n (nestedLoop planned predicate left right schema none c) e
  | n + 1, hashJoin planned predicate left right schema none pending c, e =>
    (drainWith (pullWith (fetch n)) (takeKeyed predicate.left) n [] left e).andThen
      (under (hashJoin planned predicate · right schema none pending c)) fun table (left, e) =>
      fetch n (hashJoin planned predicate left right schema (some table) pending c) e
  | _ + 1, hashJoin planned predicate left right schema (some table) (row :: pending) c, e =>
    (.ok (some row), hashJoin planned predicate left right schema (some table) pending c, e)
  | n + 1, hashJoin planned predicate left right schema (some table) [] c, e =>
    (pullWith (fetch n) right e).andThen
      (under (hashJoin planned predicate left · schema (some table) [] c)) fun
      | none, (right, e) =>
        (.ok none, hashJoin planned predicate left right schema (some table) [] c, e)
      | some probe, (right, e) =>
        match probe.field predicate.right with
        | .error cause =>
          (.error cause, hashJoin planned predicate left right schema (some table) [] c, e)
        | .ok key =>
          let found := (table.filter fun entry => entry.1 = key).map fun entry =>
            entry.2.concat probe
          fetch n (hashJoin planned predicate left right schema (some table) found c) e
  | n + 1, aggregate column group fn child schema none c, e =>
    match newAggregator child.schema column group fn with
    | .error cause => (.error cause, aggregate column group fn child schema none c, e)
    | .ok a =>
      (drainWith (pullWith (fetch n)) takeSummary n a child e).andThen
        (under (aggregate column group fn · schema none c)) fun a (child, e) =>
        match a.rows with
        | .error cause => (.error cause, aggregate column group fn child schema none c, e)
        | .ok results => fetch n (aggregate column group fn child schema (some results) c) e
  | _ + 1, aggregate column group fn child schema (some []) c, e =>
    (.ok none, aggregate column group fn child schema (some []) c, e)
  | _ + 1, aggregate column group fn child schema (some (row :: results)) c, e =>
    (.ok (some (row.relabel schema)),
      aggregate column group fn child schema (some results) c, e)
  | _ + 1, insert db tx table tableSchema child true c, e =>
    (.ok none, insert db tx table tableSchema child true c, e)
  | n + 1, insert db tx table tableSchema child false c, e =>
    (drainWith (pullWith (fetch n)) (takeInsert db tx table tableSchema) n 0 child e).andThen
      (under (insert db tx table tableSchema · false c)) fun count (child, e) =>
      (.ok (some (countRow count)), insert db tx table tableSchema child true c, e)
  | _ + 1, delete db tx child true c, e => (.ok none, delete db tx child true c, e)
  | n + 1, delete db tx child false c, e =>
    (drainWith (pullWith (fetch n)) (takeDelete db tx) n 0 child e).andThen
      (under (delete db tx · false c)) fun count (child, e) =>
      (.ok (some (countRow count)), delete db tx child true c, e)

/-- Take a row, or none at the end. -/
def pull (steps : Nat) (op : Operator) (e : Engine) : Pulled (Option Tuple) :=
  pullWith (fetch steps) op e

/-- Whether there is another row. The row is looked at and kept. -/
def hasNext (steps : Nat) (op : Operator) (e : Engine) : Pulled Bool :=
  (op.pull steps e).andThen id fun row (op, e) => (.ok row.isSome, op.setPeeked row, e)

/-- The next row. -/
def next (steps : Nat) (op : Operator) (e : Engine) : Pulled Tuple :=
  (op.pull steps e).andThen id fun
    | some row, (op, e) => (.ok row, op, e)
    | none, (op, e) => (.error .noSuchElement, op, e)

/-- All rows that are still to come. -/
def collect (steps : Nat) (op : Operator) (e : Engine) : Pulled (List Tuple) :=
  (drainWith (pull steps) (fun taken row e => (.ok (row :: taken), e)) steps [] op e).andThen
    id fun taken s => (.ok taken.reverse, s)

end Operator

end Rowstore
