import Rowstore.Schema
import Rowstore.Value

/-!
# Tuples

A row: a schema, one value or none for each column, and the record it was read from.

* `Tuple.unset` has no values yet, and `Tuple.set` gives one. `Tuple.ofValues?` gives them all and
  wants as many as there are columns.
* Rows that are made and not read carry no record: `Tuple.concat` joins two rows into one of those.
* A row can be stored under a schema of the same shape when every value is there, has the type of
  its column and fits its cell. Its written form is its cells one after another; `Tuple.read`
  takes the cells of a schema from the front of a list of bytes.
-/

namespace Rowstore

/-- A row. -/
structure Tuple where
  schema : Schema
  /-- One entry for each column; `none` is a value not set. -/
  values : List (Option Value)
  record : Option RecordId
deriving DecidableEq

namespace Tuple

/-- The row of a schema with no value set. -/
def unset (schema : Schema) : Tuple := ⟨schema, List.replicate schema.arity none, none⟩

/-- The row with the given values, in order. -/
def ofList (schema : Schema) (values : List Value) : Tuple := ⟨schema, values.map some, none⟩

/-- The row with the given values, if there is one for each column. -/
def ofValues? (schema : Schema) (values : List Value) : Option Tuple :=
  if values.length = schema.arity then some (ofList schema values) else none

/-- The value at an index. -/
def field (t : Tuple) (index : Nat) : Except DbError Value :=
  match t.values[index]? with
  | some (some v) => .ok v
  | some none => .error (.fieldNotSet index)
  | none => .error (.fieldIndexOutOfRange index t.values.length)

/-- The row with the value at an index replaced. -/
def set (t : Tuple) (index : Nat) (v : Value) : Except DbError Tuple :=
  if index < t.values.length then .ok { t with values := t.values.set index (some v) }
  else .error (.fieldIndexOutOfRange index t.values.length)

/-- The row bound to another schema, with no value set. It keeps its record. -/
def reset (t : Tuple) (schema : Schema) : Tuple :=
  { t with schema, values := List.replicate schema.arity none }

/-- The row under the column names of a schema of the same shape. -/
def relabel (t : Tuple) (schema : Schema) : Tuple := { t with schema }

/-- The columns of `a` and then those of `b`, with no record. -/
def concat (a b : Tuple) : Tuple := ⟨a.schema.merge b.schema, a.values ++ b.values, none⟩

/-- Two rows agree when their shapes, their values and their records do. -/
def Agrees (a b : Tuple) : Prop :=
  a.schema.SameShape b.schema ∧ a.values = b.values ∧ a.record = b.record

instance (a b : Tuple) : Decidable (a.Agrees b) := inferInstanceAs (Decidable (_ ∧ _))

/-- The written form of a row: its values between tabs. -/
def text (t : Tuple) : String :=
  "\t".intercalate (t.values.map fun v => (v.map Value.text).getD "null")

/-- Refuse a row that a page of a schema cannot hold. -/
def checkStorable (t : Tuple) (schema : Schema) : Except DbError Unit :=
  if ¬ t.schema.SameShape schema then .error .tupleSchemaMismatch
  else schema.columns.zipIdx.forM fun (column, index) => do
    let v ← t.field index
    v.checkStorable column.type

/-! ### Cells -/

/-- The cells of a row, one after another. -/
def encode (t : Tuple) : Except DbError (List UInt8) := do
  let cells ← (List.range t.values.length).mapM fun index => do
    let v ← t.field index
    v.encode
  return cells.flatten

/-- Take values of the given types from the front of the bytes, with the bytes left unread. -/
def readValues : List ColumnType → List UInt8 → Option (List Value) × List UInt8
  | [], bytes => (some [], bytes)
  | type :: types, bytes =>
    match Value.read type bytes with
    | (none, rest) => (none, rest)
    | (some v, rest) =>
      match readValues types rest with
      | (none, rest) => (none, rest)
      | (some vs, rest) => (some (v :: vs), rest)

/-- Take a row of a schema from the front of the bytes, with the bytes left unread. -/
def read (schema : Schema) (bytes : List UInt8) : Option Tuple × List UInt8 :=
  match readValues schema.types bytes with
  | (none, rest) => (none, rest)
  | (some vs, rest) => (some (ofList schema vs), rest)

@[simp] theorem schema_concat (a b : Tuple) : (a.concat b).schema = a.schema.merge b.schema := rfl

@[simp] theorem values_concat (a b : Tuple) : (a.concat b).values = a.values ++ b.values := rfl

@[simp] theorem record_concat (a b : Tuple) : (a.concat b).record = none := rfl

@[simp] theorem schema_relabel (t : Tuple) (s : Schema) : (t.relabel s).schema = s := rfl

@[simp] theorem values_relabel (t : Tuple) (s : Schema) : (t.relabel s).values = t.values := rfl

@[simp] theorem record_relabel (t : Tuple) (s : Schema) : (t.relabel s).record = t.record := rfl

/-- A value that was set is found again. -/
theorem field_set {t u : Tuple} {index : Nat} {v : Value} (h : t.set index v = .ok u) :
    u.field index = .ok v := by
  unfold set at h
  split at h
  · rename_i hlt
    cases h
    simp [field, hlt]
  · cases h

end Tuple

end Rowstore
