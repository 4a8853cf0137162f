/-!
# Column types

A column holds 32-bit integers or strings. Each type takes a fixed number of bytes on a page, so
the width of a stored row is known from its schema alone.
-/

namespace Rowstore

/-- The most bytes a stored string may have. -/
def maxTextBytes : Nat := 128

/-- The type of a column. -/
inductive ColumnType
  | int
  | str
deriving DecidableEq

namespace ColumnType

/-- The name of a type in messages and schema texts. -/
def text : ColumnType → String
  | int => "INT"
  | str => "STRING"

/-- The bytes a cell takes on a page: four for an integer, and for a string a four-byte length
and room for the longest one. -/
def width : ColumnType → Nat
  | int => 4
  | str => 4 + maxTextBytes

@[simp] theorem width_int : int.width = 4 := rfl

@[simp] theorem width_str : str.width = 132 := rfl

theorem width_pos (t : ColumnType) : 0 < t.width := by cases t <;> decide

/-- The bytes that cells of the given types take side by side. -/
def totalWidth : List ColumnType → Nat
  | [] => 0
  | t :: ts => t.width + totalWidth ts

@[simp] theorem totalWidth_nil : totalWidth [] = 0 := rfl

@[simp] theorem totalWidth_cons (t : ColumnType) (ts : List ColumnType) :
    totalWidth (t :: ts) = t.width + totalWidth ts := rfl

@[simp] theorem totalWidth_append (ts us : List ColumnType) :
    totalWidth (ts ++ us) = totalWidth ts + totalWidth us := by
  induction ts with
  | nil => simp
  | cons t ts ih => simp [ih, Nat.add_assoc]

end ColumnType

end Rowstore
