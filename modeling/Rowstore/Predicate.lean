import Rowstore.Tuple

/-!
# Predicates

Tests on rows: a column compared with a constant, and a column of one row compared with a column of
another. A test fails when a column is out of range or has no value.
-/

namespace Rowstore

/-- A column compared with a constant. -/
structure Predicate where
  column : Nat
  op : Comparison
  operand : Value
deriving DecidableEq

namespace Predicate

/-- Whether a row satisfies the predicate. -/
def holds (p : Predicate) (row : Tuple) : Except DbError Bool :=
  (row.field p.column).map fun v => v.satisfies p.op p.operand

/-- The written form of a predicate. -/
def text (p : Predicate) : String :=
  "f" ++ toString p.column ++ " " ++ p.op.symbol ++ " " ++ p.operand.text

end Predicate

/-- A column of a left row compared with a column of a right one. -/
structure JoinPredicate where
  left : Nat
  op : Comparison
  right : Nat
deriving DecidableEq

namespace JoinPredicate

/-- Whether two rows satisfy the predicate. -/
def holds (p : JoinPredicate) (left right : Tuple) : Except DbError Bool := do
  let a ← left.field p.left
  let b ← right.field p.right
  return a.satisfies p.op b

end JoinPredicate

end Rowstore
