/-!
# Aggregate functions

The functions a column can be summarised by. Two of them are reserved: they are accepted, and
give no rows.
-/

namespace Rowstore

/-- A function that summarises a column. -/
inductive AggregateFunction
  | min
  | max
  | sum
  | avg
  | count
  | sumCount
  | scAvg
deriving DecidableEq

namespace AggregateFunction

/-- The written form of a function. -/
def text : AggregateFunction → String
  | min => "min"
  | max => "max"
  | sum => "sum"
  | avg => "avg"
  | count => "count"
  | sumCount => "sum_count"
  | scAvg => "sc_avg"

/-- All functions. -/
def all : List AggregateFunction := [min, max, sum, avg, count, sumCount, scAvg]

/-- The function with a written form. -/
def ofText? (text : String) : Option AggregateFunction := all.find? fun fn => fn.text = text

/-- The functions that are accepted and give no rows. -/
def isReserved : AggregateFunction → Bool
  | sumCount | scAvg => true
  | _ => false

/-- A written function reads back. -/
theorem ofText?_text (fn : AggregateFunction) : ofText? fn.text = some fn := by
  cases fn <;> decide

end AggregateFunction

end Rowstore
