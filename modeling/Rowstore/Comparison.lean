/-!
# Comparisons

The seven comparisons a predicate may use, and which of the three orderings of two values each
accepts. `like` accepts equal values here; what it means for strings is said where values are
compared.
-/

namespace Rowstore

/-- A comparison of two values. -/
inductive Comparison
  | equal
  | notEqual
  | greater
  | greaterEq
  | less
  | lessEq
  | like
deriving DecidableEq

namespace Comparison

/-- The written form of a comparison. -/
def symbol : Comparison → String
  | equal => "="
  | notEqual => "<>"
  | greater => ">"
  | greaterEq => ">="
  | less => "<"
  | lessEq => "<="
  | like => "LIKE"

/-- All comparisons. -/
def all : List Comparison := [equal, notEqual, greater, greaterEq, less, lessEq, like]

/-- The comparison with a written form. -/
def ofSymbol? (symbol : String) : Option Comparison := all.find? fun op => op.symbol = symbol

/-- Whether values that are ordered so satisfy the comparison. -/
def accepts : Comparison → Ordering → Bool
  | equal, o | like, o => o == .eq
  | notEqual, o => o != .eq
  | greater, o => o == .gt
  | greaterEq, o => o != .lt
  | less, o => o == .lt
  | lessEq, o => o != .gt

/-- A written comparison reads back. -/
theorem ofSymbol?_symbol (op : Comparison) : ofSymbol? op.symbol = some op := by
  cases op <;> decide

end Comparison

end Rowstore
