import Rowstore.Error

/-!
# Schemas

The columns of a row. A schema has at least one column, so a row takes at least one byte.

* Two schemas have the same shape when their column types agree in order; names do not matter.
* `Schema.merge` puts one schema's columns after another's, and `Schema.qualified` writes an alias
  before every column name. Columns without a name stay without one.
-/

namespace Rowstore

/-- A column: its type and, if it has one, its name. -/
structure Column where
  type : ColumnType
  name : Option String
deriving DecidableEq

/-- The written form of a column. -/
def Column.text (c : Column) : String := c.type.text ++ "(" ++ c.name.getD "null" ++ ")"

/-- The columns of a row, in order. -/
structure Schema where
  columns : List Column
  columns_ne_nil : columns ≠ []
deriving DecidableEq

namespace Schema

/-- The schema with the given columns, if there are any. -/
def ofColumns? (columns : List Column) : Option Schema :=
  if h : columns ≠ [] then some ⟨columns, h⟩ else none

/-- The schema with one column. -/
def single (c : Column) : Schema := ⟨[c], by simp⟩

/-- The schema with two columns. -/
def pair (c d : Column) : Schema := ⟨[c, d], by simp⟩

/-- The column types, in order. -/
def types (s : Schema) : List ColumnType := s.columns.map Column.type

/-- The count of columns. -/
def arity (s : Schema) : Nat := s.columns.length

/-- The bytes a row takes on a page. -/
def size (s : Schema) : Nat := ColumnType.totalWidth s.types

/-- Two schemas have the same column types. -/
def SameShape (a b : Schema) : Prop := a.types = b.types

instance (a b : Schema) : Decidable (a.SameShape b) := inferInstanceAs (Decidable (_ = _))

/-- The column at an index. -/
def column (s : Schema) (index : Nat) : Except DbError Column :=
  match s.columns[index]? with
  | some c => .ok c
  | none => .error (.fieldIndexOutOfRange index s.arity)

/-- The index of the first column with a name. -/
def indexOf? (s : Schema) (name : String) : Option Nat :=
  s.columns.findIdx? (fun c => c.name = some name)

/-- The columns of `a` and then those of `b`. -/
def merge (a b : Schema) : Schema :=
  ⟨a.columns ++ b.columns, List.append_ne_nil_of_left_ne_nil a.columns_ne_nil _⟩

/-- The same columns with an alias and a point before every name. -/
def qualified (s : Schema) (label : String) : Schema :=
  ⟨s.columns.map fun c => { c with name := c.name.map fun name => label ++ "." ++ name },
    by simp [s.columns_ne_nil]⟩

/-- The written form of a schema. -/
def text (s : Schema) : String := ", ".intercalate (s.columns.map Column.text)

@[simp] theorem types_merge (a b : Schema) : (a.merge b).types = a.types ++ b.types := by
  simp [types, merge]

@[simp] theorem types_qualified (s : Schema) (label : String) :
    (s.qualified label).types = s.types := by simp [types, qualified]

@[simp] theorem size_merge (a b : Schema) : (a.merge b).size = a.size + b.size := by simp [size]

theorem size_pos (s : Schema) : 0 < s.size := by
  obtain ⟨columns, h⟩ := s
  cases columns with
  | nil => exact absurd rfl h
  | cons c cs =>
    have := c.type.width_pos
    simp only [size, types, List.map_cons, ColumnType.totalWidth_cons]
    omega

namespace SameShape

theorem refl (a : Schema) : a.SameShape a := rfl

theorem symm {a b : Schema} (h : a.SameShape b) : b.SameShape a := Eq.symm h

theorem trans {a b c : Schema} (h : a.SameShape b) (h' : b.SameShape c) : a.SameShape c :=
  Eq.trans h h'

/-- Schemas of the same shape have rows of the same size. -/
theorem size_eq {a b : Schema} (h : a.SameShape b) : a.size = b.size := by
  unfold size
  rw [show a.types = b.types from h]

end SameShape

end Schema

end Rowstore
