import Rowstore.Tuple

/-!
# Aggregators

Summaries of a column, one for each group of rows.

* The groups are in the order in which they were first seen. Rows without a grouping column are all
  in one group.
* A row that cannot be taken in (a value that is missing or has the wrong type) changes nothing.
* Sums are exact. A result must fit an integer column: the first group whose result does not is the
  failure. An average is cut off toward zero.
* Strings can only be counted. Counting no rows without grouping gives one row, 0; the reserved
  functions take in everything and give no rows.
-/

namespace Rowstore

/-- A grouping column and its type. -/
abbrev Grouping := Nat × ColumnType

/-- The group a row belongs to: `none` without grouping, and else the value of its column. -/
def groupKey (grouping : Option Grouping) (row : Tuple) : Except DbError (Option Value) :=
  match grouping with
  | none => .ok none
  | some (column, type) => do
    let v ← row.field column
    if v.type ≠ type then throw (.typeMismatch type v.type)
    return some v

/-- What is known of the values of one group. -/
structure Accumulator where
  /-- The smallest or largest value, or the sum, as the function wants. -/
  value : Int
  /-- The count of values. -/
  count : Nat
deriving DecidableEq

namespace Accumulator

/-- Take in another value. -/
def add (fn : AggregateFunction) (acc : Accumulator) (n : Int) : Accumulator where
  value := match fn with
    | .min => min acc.value n
    | .max => max acc.value n
    | .sum | .avg => acc.value + n
    | _ => acc.value
  count := acc.count + 1

/-- The result of a function over the values. -/
def result (fn : AggregateFunction) (acc : Accumulator) : Int :=
  match fn with
  | .count => acc.count
  | .avg => acc.value.tdiv acc.count
  | _ => acc.value

end Accumulator

/-- A summary of a column under way. -/
structure Aggregator where
  /-- The type of the column. -/
  input : ColumnType
  grouping : Option Grouping
  column : Nat
  fn : AggregateFunction
  /-- The groups in the order in which they were first seen. -/
  groups : List (Option Value × Accumulator)
deriving DecidableEq

namespace Aggregator

/-- The summary of a column of a type by a function, with no rows taken in. -/
def new (input : ColumnType) (grouping : Option Grouping) (column : Nat)
    (fn : AggregateFunction) : Except DbError Aggregator :=
  if input = .str ∧ fn ≠ .count then .error (.illegalAggregate fn .str)
  else .ok { input, grouping, column, fn, groups := [] }

/-- The columns of the results: the group, if there is grouping, and the result. -/
def schema (a : Aggregator) : Schema :=
  match a.grouping with
  | none => .single ⟨.int, none⟩
  | some (_, type) => .pair ⟨type, none⟩ ⟨.int, none⟩

/-- Take a value into its group, which is a new one if it was not seen before. -/
def addTo (fn : AggregateFunction) (key : Option Value) (n : Int) :
    List (Option Value × Accumulator) → List (Option Value × Accumulator)
  | [] => [(key, ⟨n, 1⟩)]
  | (k, acc) :: groups =>
    if k = key then (k, acc.add fn n) :: groups else (k, acc) :: addTo fn key n groups

/-- The number that a value counts as. -/
def number (input : ColumnType) (v : Value) : Except DbError Int :=
  match input, v with
  | .str, _ => .ok 0
  | .int, .int n => .ok n.toInt
  | .int, .str _ => .error (.typeMismatch .int .str)

/-- Take in a row. -/
def merge (a : Aggregator) (row : Tuple) : Except DbError Aggregator :=
  if a.fn.isReserved then .ok a
  else do
    let v ← row.field a.column
    let n ← number a.input v
    let key ← groupKey a.grouping row
    return { a with groups := addTo a.fn key n a.groups }

/-- The row of a group. -/
def resultRow (schema : Schema) (key : Option Value) (result : Int) : Except DbError Tuple :=
  if result < Int32.minValue.toInt ∨ Int32.maxValue.toInt < result then
    .error (.aggregateOverflow result)
  else .ok (Tuple.ofList schema (key.toList ++ [.int (Int32.ofInt result)]))

/-- The rows of all groups. -/
def rows (a : Aggregator) : Except DbError (List Tuple) :=
  if a.fn.isReserved then .ok []
  else if a.groups.isEmpty ∧ a.grouping.isNone ∧ a.fn = .count then
    (resultRow a.schema none 0).map fun row => [row]
  else a.groups.mapM fun (key, acc) => resultRow a.schema key (acc.result a.fn)

end Aggregator

end Rowstore
