import Mathlib
import Rowstore.Proofs.Query.Answer

/-!
# What comes from an operator

Whoever pulls an operator gets rows, and then there are no more, or a pull fails: a `Feed`. This is
so of every operator in every state, and what comes depends on the state alone as long as the tables
are only read. It is made from what comes from the children: `Feed.filter`, `Feed.loop`,
`Feed.probe` and `Feed.summed` follow the operators, failures included.

A `Prospect` is what comes from an operator in some state, and what comes when it is sent back
first. A nested loop needs both of its right child, and a join by a table without one needs what
comes from its left child without sending it back, even when it is sent back itself.

* `Operator.prospect` is the prospect of a state, and `Operator.opened` that of the state after the
  operator is opened.
* `Operator.course` is what comes from the operator when it is new.
-/

namespace Rowstore

/-- Rows, one after another, and then the end or a failure. -/
inductive Feed
  | ended
  | failed (cause : DbError)
  | row (t : Tuple) (rest : Feed)
deriving DecidableEq

namespace Feed

/-- Some rows, and then what comes. -/
def prepend : List Tuple → Feed → Feed
  | [], f => f
  | t :: ts, f => .row t (prepend ts f)

theorem prepend_append (ts us : List Tuple) (f : Feed) :
    prepend (ts ++ us) f = prepend ts (prepend us f) := by
  induction ts with
  | nil => rfl
  | cons t ts ih => exact congrArg (Feed.row t) ih

/-- Some rows, and then the end. -/
def ofList (ts : List Tuple) : Feed := prepend ts ended

theorem ofList_cons (t : Tuple) (ts : List Tuple) : ofList (t :: ts) = row t (ofList ts) := rfl

/-- What comes if a value is found. -/
def given {α : Type} (x : Except DbError α) (f : α → Feed) : Feed :=
  match x with
  | .error cause => failed cause
  | .ok a => f a

/-- What comes from behind a cursor. -/
def behind (c : Cursor) (f : Feed) : Feed :=
  if ¬ c.isOpen then failed .operatorNotOpen
  else match c.peeked with
    | some t => row t f
    | none => f

/-- The rows that satisfy a predicate. -/
def filter (p : Predicate) : Feed → Feed
  | ended => ended
  | failed cause => failed cause
  | row t rest =>
    match p.holds t with
    | .error cause => failed cause
    | .ok true => row t (rest.filter p)
    | .ok false => rest.filter p

/-- A left row with each of the right rows that satisfy a predicate with it, and then what comes
after them. -/
def pairs (p : JoinPredicate) (l : Tuple) (after : Feed) : Feed → Feed
  | ended => after
  | failed cause => failed cause
  | row r rest =>
    match p.holds l r with
    | .error cause => failed cause
    | .ok true => row (l.concat r) (pairs p l after rest)
    | .ok false => pairs p l after rest

/-- Each left row with the right rows: those of `first` for the first one, and those of `again` for
each of the others. -/
def loop (p : JoinPredicate) (again first : Feed) : Feed → Feed
  | ended => ended
  | failed cause => failed cause
  | row l rest => pairs p l (loop p again again rest) first

/-- Something that all rows are taken into, if they come to an end. -/
def foldM {σ : Type} (take : σ → Tuple → Except DbError σ) (state : σ) : Feed → Except DbError σ
  | ended => .ok state
  | failed cause => .error cause
  | row t rest => take state t >>= fun state => rest.foldM take state

/-- For each right row those that it finds in a table of left rows. -/
def probe (p : JoinPredicate) (table : List (Value × Tuple)) : Feed → Feed
  | ended => ended
  | failed cause => failed cause
  | row r rest =>
    match r.field p.right with
    | .error cause => failed cause
    | .ok key =>
      prepend ((table.filter fun entry => entry.1 = key).map fun entry => entry.2.concat r)
        (rest.probe p table)

/-- The rows of an aggregate. -/
def summed (input : Schema) (column : Nat) (group : Option Nat) (fn : AggregateFunction)
    (schema : Schema) (f : Feed) : Feed :=
  given (do
    let a ← Operator.newAggregator input column group fn
    let a ← f.foldM Aggregator.merge a
    a.rows) fun results => ofList (results.map fun row => row.relabel schema)

/-- The count of the rows that come. -/
def size : Feed → Nat
  | ended | failed _ => 0
  | row _ rest => rest.size + 1

theorem size_lt {f rest : Feed} {t : Tuple} (h : f = .row t rest) : rest.size < f.size := by
  rw [h]
  exact Nat.lt_succ_self _

/-- All rows come, without a failure. -/
def Ends : Feed → Prop
  | ended => True
  | failed _ => False
  | row _ rest => rest.Ends

theorem ends_ofList (ts : List Tuple) : (ofList ts).Ends := by
  induction ts with
  | nil => trivial
  | cons t ts ih => exact ih

theorem ofList_inj {ts us : List Tuple} (h : ofList ts = ofList us) : ts = us := by
  induction ts generalizing us with
  | nil =>
    cases us with
    | nil => rfl
    | cons u us => cases h
  | cons t ts ih =>
    cases us with
    | nil => cases h
    | cons u us =>
      obtain ⟨rfl, hrest⟩ := Feed.row.inj h
      rw [ih hrest]

end Feed

/-- What comes from an operator: now, and after it is sent back. -/
structure Prospect where
  now : Feed
  again : Feed

namespace Prospect

open Feed

/-- What comes from behind a cursor. Going back drops the row that was looked at. -/
def behind (c : Cursor) (x : Prospect) : Prospect := ⟨x.now.behind c, x.again.behind c.clear⟩

def filter (p : Predicate) (child : Prospect) : Prospect :=
  ⟨child.now.filter p, child.again.filter p⟩

/-- What comes from a nested loop with a left row under way, or without one. -/
def loop (p : JoinPredicate) (current : Option Tuple) (left right : Prospect) : Prospect where
  now := match current with
    | some l => pairs p l (Feed.loop p right.again right.again left.now) right.now
    | none => Feed.loop p right.again right.now left.now
  again := Feed.loop p right.again right.again left.again

/-- The table of a join: the one it has, or the one that it makes of the left rows that come. -/
def entries (p : JoinPredicate) (table : Option (List (Value × Tuple))) (left : Feed) :
    Except DbError (List (Value × Tuple)) :=
  match table with
  | some table => .ok table
  | none => left.foldM (Operator.addKeyed p.left) []

/-- What comes from a join by a table. The left child is not sent back. -/
def hash (p : JoinPredicate) (table : Option (List (Value × Tuple))) (pending : List Tuple)
    (left right : Prospect) : Prospect where
  now := given (entries p table left.now) fun table => prepend pending (right.now.probe p table)
  again := given (entries p table left.now) fun table => right.again.probe p table

/-- What comes from an aggregate with results, or without. -/
def summed (input : Schema) (column : Nat) (group : Option Nat) (fn : AggregateFunction)
    (schema : Schema) (results : Option (List Tuple)) (child : Prospect) : Prospect where
  now := match results with
    | some results => ofList (results.map fun row => row.relabel schema)
    | none => child.now.summed input column group fn schema
  again := child.again.summed input column group fn schema

end Prospect

namespace Operator

/-- The rows of a table, under the column names of a scan. -/
def tableFeed (e : Engine) (db : Nat) (table : TableId) (schema : Schema) : Feed :=
  .ofList (((e.store db).tableRows table).map fun r => r.under schema)

/-- The rows of a scan that are still to come; none if it is closed. -/
def scanFeed (e : Engine) (db : Nat) (schema : Schema) (place : Scan) : Feed :=
  match place.rest with
  | none => .ended
  | some _ => .ofList (((e.store db).remaining place).map fun r => r.under schema)

/-- What comes from an operator in some state. -/
def prospect (e : Engine) : Operator → Prospect
  | rows _ all rest c => .behind c ⟨.ofList rest, .ofList all⟩
  | scan db table _ schema place c =>
    .behind c ⟨scanFeed e db schema place, tableFeed e db table schema⟩
  | filter p child c => .behind c (.filter p (child.prospect e))
  | nestedLoop _ p left right _ current c =>
    .behind c (.loop p current (left.prospect e) (right.prospect e))
  | hashJoin _ p left right _ table pending c =>
    .behind c (.hash p table pending (left.prospect e) (right.prospect e))
  | aggregate column group fn child schema results c =>
    .behind c (.summed child.schema column group fn schema results (child.prospect e))
  | insert _ _ _ _ _ _ c | delete _ _ _ _ c => .behind c ⟨.ended, .ended⟩

/-- What comes from an operator that is opened in some state. It keeps the rows that were looked at,
and a join by a table keeps its table and the rows that wait. -/
def opened (e : Engine) : Operator → Prospect
  | rows _ all _ c => .behind (c.setOpen true) ⟨.ofList all, .ofList all⟩
  | scan db table _ schema _ c =>
    .behind (c.setOpen true) ⟨tableFeed e db table schema, tableFeed e db table schema⟩
  | filter p child c => .behind (c.setOpen true) (.filter p (child.opened e))
  | nestedLoop _ p left right _ _ c =>
    .behind (c.setOpen true) (.loop p none (left.opened e) (right.opened e))
  | hashJoin _ p left right _ table pending c =>
    .behind (c.setOpen true) (.hash p table pending (left.opened e) (right.opened e))
  | aggregate column group fn child schema _ c =>
    .behind (c.setOpen true) (.summed child.schema column group fn schema none (child.opened e))
  | insert _ _ _ _ _ _ c | delete _ _ _ _ c => .behind (c.setOpen true) ⟨.ended, .ended⟩

/-- What comes from an operator that is new and opened. -/
def course (e : Engine) : Operator → Feed
  | rows _ all _ _ => .ofList all
  | scan db table _ schema _ _ => tableFeed e db table schema
  | filter p child _ => (child.course e).filter p
  | nestedLoop _ p left right _ _ _ =>
    .loop p (right.course e) (right.course e) (left.course e)
  | hashJoin _ p left right _ _ _ _ =>
    .given ((left.course e).foldM (addKeyed p.left) []) fun table =>
      (right.course e).probe p table
  | aggregate column group fn child schema _ _ =>
    (child.course e).summed child.schema column group fn schema
  | insert .. | delete .. => .ended

variable {e : Engine} {op op' : Operator}

theorem course_fresh (op : Operator) : op.fresh.course e = op.course e := by
  induction op with
  | filter p child c ih => rw [fresh, course, course, ih]
  | nestedLoop planned p left right schema current c ihl ihr =>
    rw [fresh, course, course, ihl, ihr]
  | hashJoin planned p left right schema table pending c ihl ihr =>
    rw [fresh, course, course, ihl, ihr]
  | aggregate column group fn child schema results c ih =>
    rw [fresh, course, course, ih, schema_fresh]
  | _ => rfl

/-- What comes from a new operator does not depend on where the operator is. -/
theorem course_congr (h : op'.fresh = op.fresh) : op'.course e = op.course e := by
  rw [← course_fresh op', h, course_fresh]

/-- Nothing waits in a new operator. -/
theorem opened_fresh (op : Operator) : op.fresh.opened e = ⟨op.course e, op.course e⟩ := by
  induction op with
  | filter p child c ih =>
    rw [fresh, opened, ih]
    rfl
  | nestedLoop planned p left right schema current c ihl ihr =>
    rw [fresh, opened, ihl, ihr]
    rfl
  | hashJoin planned p left right schema table pending c ihl ihr =>
    rw [fresh, opened, ihl, ihr]
    rfl
  | aggregate column group fn child schema results c ih =>
    rw [fresh, opened, ih, schema_fresh]
    rfl
  | _ => rfl

end Operator

end Rowstore
