import Mathlib
import Rowstore.Operator.Pull
import Rowstore.Proofs.Store.Reading

/-!
# Operators before they begin

An operator at work is the same tree that it was when it was new: `Operator.fresh` is what it was
then. Operators of one `fresh` are the states of one tree, so they are of one kind, with the same
parameters, and their children are states of one tree again. What only the cursor tells apart is of
one `fresh` too.
-/

namespace Rowstore

/-- The cursor of an operator that is open, with no row looked at. -/
def Cursor.ready : Cursor := ⟨true, none⟩

namespace Operator

/-- An operator as it was before it began. -/
def fresh : Operator → Operator
  | rows schema all _ _ => rows schema all all {}
  | scan db table label schema place _ => scan db table label schema place.fresh {}
  | filter p child _ => filter p child.fresh {}
  | nestedLoop planned p left right schema _ _ =>
    nestedLoop planned p left.fresh right.fresh schema none {}
  | hashJoin planned p left right schema _ _ _ =>
    hashJoin planned p left.fresh right.fresh schema none [] {}
  | aggregate column group fn child schema _ _ =>
    aggregate column group fn child.fresh schema none {}
  | insert db tx table tableSchema child _ _ => insert db tx table tableSchema child.fresh false {}
  | delete db tx child _ _ => delete db tx child.fresh false {}

variable {op child left right : Operator}

theorem schema_fresh (op : Operator) : op.fresh.schema = op.schema := by
  induction op with
  | filter p child c ih => exact ih
  | _ => rfl

theorem cursor_fresh (op : Operator) : op.fresh.cursor = {} := by
  cases op <;> rfl

/-! ### States of one tree -/

section States

variable {schema : Schema} {all rest : List Tuple} {c : Cursor} {db : Nat} {table : TableId}
  {label : String} {place : Scan} {planned : Bool} {p : JoinPredicate} {current : Option Tuple}
  {entries : Option (List (Value × Tuple))} {pending : List Tuple} {column : Nat}
  {group : Option Nat} {fn : AggregateFunction} {results : Option (List Tuple)}

theorem fresh_eq_rows (h : op.fresh = (rows schema all rest c).fresh) :
    ∃ rest c, op = rows schema all rest c := by
  cases op <;> simp [fresh] at h
  obtain ⟨rfl, rfl⟩ := h
  exact ⟨_, _, rfl⟩

theorem fresh_eq_scan (h : op.fresh = (scan db table label schema place c).fresh) :
    ∃ place c, op = scan db table label schema place c := by
  cases op <;> simp [fresh] at h
  obtain ⟨rfl, rfl, rfl, rfl, -⟩ := h
  exact ⟨_, _, rfl⟩

theorem fresh_eq_filter {p : Predicate} (h : op.fresh = (filter p child c).fresh) :
    ∃ child' c, op = filter p child' c ∧ child'.fresh = child.fresh := by
  cases op <;> simp [fresh] at h
  obtain ⟨rfl, h⟩ := h
  exact ⟨_, _, rfl, h⟩

theorem fresh_eq_loop
    (h : op.fresh = (nestedLoop planned p left right schema current c).fresh) :
    ∃ left' right' current c, op = nestedLoop planned p left' right' schema current c ∧
      left'.fresh = left.fresh ∧ right'.fresh = right.fresh := by
  cases op <;> simp [fresh] at h
  obtain ⟨rfl, rfl, hl, hr, rfl⟩ := h
  exact ⟨_, _, _, _, rfl, hl, hr⟩

theorem fresh_eq_hash
    (h : op.fresh = (hashJoin planned p left right schema entries pending c).fresh) :
    ∃ left' right' entries pending c,
      op = hashJoin planned p left' right' schema entries pending c ∧
      left'.fresh = left.fresh ∧ right'.fresh = right.fresh := by
  cases op <;> simp [fresh] at h
  obtain ⟨rfl, rfl, hl, hr, rfl⟩ := h
  exact ⟨_, _, _, _, _, rfl, hl, hr⟩

theorem fresh_eq_aggregate
    (h : op.fresh = (aggregate column group fn child schema results c).fresh) :
    ∃ child' results c, op = aggregate column group fn child' schema results c ∧
      child'.fresh = child.fresh := by
  cases op <;> simp [fresh] at h
  obtain ⟨rfl, rfl, rfl, h, rfl⟩ := h
  exact ⟨_, _, _, rfl, h⟩

end States

/-! ### Cursors -/

theorem fresh_mapCursor (change : Cursor → Cursor) (op : Operator) :
    (op.mapCursor change).fresh = op.fresh := by
  cases op <;> rfl

theorem mapCursor_mapCursor (change change' : Cursor → Cursor) (op : Operator) :
    (op.mapCursor change).mapCursor change' = op.mapCursor (change' ∘ change) := by
  cases op <;> rfl

theorem mapCursor_eq_self {change : Cursor → Cursor} (h : change op.cursor = op.cursor) :
    op.mapCursor change = op := by
  cases op <;> exact congrArg _ h

theorem clear_setPeeked (op : Operator) (row : Option Tuple) :
    (op.setPeeked row).clear = op.clear := mapCursor_mapCursor _ _ op

theorem clear_eq_self (h : op.cursor.peeked = none) : op.clear = op := by
  refine mapCursor_eq_self ?_
  rw [Cursor.clear, ← h]

theorem cursor_close (op : Operator) : op.close.cursor = op.cursor.setOpen false := by
  cases op <;> rfl

theorem setOpen_eq_ready {c : Cursor} (h : c.peeked = none) : c.setOpen true = .ready := by
  obtain ⟨isOpen, peeked⟩ := c
  cases h
  rfl

/-! ### Calls -/

variable {e : Engine} {s : Operator × Engine} {n : Nat}

/-- At the end of the rows `next` refuses. -/
theorem next_of_ended (h : op.pull n e = (.ok none, s)) :
    op.next n e = (.error .noSuchElement, s) := by
  rw [next, h]
  rfl

theorem pull_of_next {row : Tuple} (h : op.next n e = (.ok row, s)) :
    op.pull n e = (.ok (some row), s) := by
  unfold next at h
  generalize op.pull n e = o at h ⊢
  obtain ⟨cause | (_ | found), t⟩ := o
  · cases h
  · cases h
  · cases h
    rfl

theorem next_of_pull {row : Tuple} (h : op.pull n e = (.ok (some row), s)) :
    op.next n e = (.ok row, s) := by
  rw [next, h]
  rfl

/-- Looking at a row is pulling it and putting it back. -/
theorem pull_of_hasNext {more : Bool} (h : op.hasNext n e = (.ok more, s)) :
    ∃ row op', op.pull n e = (.ok row, op', s.2) ∧ more = row.isSome ∧ s.1 = op'.setPeeked row := by
  unfold hasNext at h
  generalize op.pull n e = o at h ⊢
  obtain ⟨cause | row, op', e'⟩ := o
  · cases h
  · cases h
    exact ⟨row, op', rfl, rfl, rfl⟩

end Operator

end Rowstore
