import Mathlib
import Rowstore.Proofs.Query.Draining

/-!
# Rows come again

A tree of queries is opened and used for a while, and left anywhere: in the middle of a group, with
rows of a join that wait, in the middle of the right rows, with or without a row that was looked at.
Then it is sent back to its start. It gives the rows it gave at first, in their order.

* `Operator.Call` is a call for a row that did not fail, `Operator.Back` a way back to the start: a
  rewinding, or closing and opening again. `Operator.Turn` is either of them.
* `Operator.Left` is what every turn keeps: the tree is steady, and the tables were only read. So a
  call gives the first of the rows that its prospect says, `Operator.Left.call`, and on the way back
  the tree comes to the course that it had at first, `Operator.Left.back`.
* `Operator.Drain` are the rows of calls that go on until there is no row left. They are all rows of
  the prospect, `Operator.Left.drain`. Draining ends again; and where no call can fail at all, the
  rows are drained indeed.
-/

namespace Rowstore

namespace Operator

/-! ### Turns -/

/-- A call for a row that did not fail, with the rows that it gave. Between calls others can read
the tables too. -/
inductive Call : Operator × Engine → List Tuple → Operator × Engine → Prop
  | look {s s' n more} (h : s.1.hasNext n s.2 = (.ok more, s')) : Call s [] s'
  | take {s s' n row} (h : s.1.next n s.2 = (.ok row, s')) : Call s [row] s'
  | ended {s s' n} (h : s.1.pull n s.2 = (.ok none, s')) : Call s [] s'
  | elsewhere {s e} (h : s.2.Reads e) : Call s [] (s.1, e)

/-- A way back to the start. -/
inductive Back : Operator × Engine → Operator × Engine → Prop
  | rewind {s s'} (h : s.1.rewind s.2 = (.ok (), s')) : Back s s'
  | reopen {s s'} (h : s.1.close.start s.2 = (.ok (), s')) : Back s s'

/-- Something that is done to an open tree, and does not fail. -/
def Turn (s s' : Operator × Engine) : Prop := (∃ given, Call s given s') ∨ Back s s'

/-- The rows of some calls until there is no row left: `hasNext` tells so, or `next` finds none. -/
inductive Drain : Operator × Engine → List Tuple → Prop
  | looked {s s' n} (h : s.1.hasNext n s.2 = (.ok false, s')) : Drain s []
  | ended {s s' n} (h : s.1.pull n s.2 = (.ok none, s')) : Drain s []
  | call {s s' given rest} (h : Call s given s') (hrest : Drain s' rest) : Drain s (given ++ rest)

variable {e e' : Engine} {op op' : Operator} {s s' t : Operator × Engine} {n : Nat}

theorem drain_of_drainWith {m : Nat} {taken found : List Tuple}
    (h : drainWith (pull n) (fun taken row e => (.ok (row :: taken), e)) m taken op e =
      (.ok found, s)) :
    ∃ rest, found = rest.reverse ++ taken ∧ Drain (op, e) rest := by
  induction m generalizing taken op e with
  | zero => cases h
  | succ m ih =>
    rw [drainWith] at h
    cases hpull : op.pull n e with
    | mk result t =>
      obtain ⟨op', e'⟩ := t
      rw [hpull] at h
      rcases result with cause | (_ | row)
      · cases h
      · cases h
        exact ⟨[], rfl, .ended hpull⟩
      · obtain ⟨rest, rfl, hrest⟩ := ih h
        refine ⟨row :: rest, ?_, .call (.take (next_of_pull hpull)) hrest⟩
        rw [List.reverse_cons, List.append_assoc]
        rfl

/-- What is collected is drained, by calls for the next row. -/
theorem drain_of_collect {found : List Tuple} (h : op.collect n e = (.ok found, s)) :
    Drain (op, e) found := by
  unfold collect at h
  generalize hdrained : drainWith (pull n) (fun taken row e => (.ok (row :: taken), e)) n [] op e
    = o at h
  obtain ⟨cause | found, t⟩ := o
  · cases h
  · cases h
    obtain ⟨rest, rfl, hrest⟩ := drain_of_drainWith hdrained
    rwa [List.append_nil, List.reverse_reverse]

/-! ### Trees that were left -/

/-- A tree was opened and used, and no call failed, while its tables were only read. -/
structure Left (e : Engine) (op : Operator) (s : Operator × Engine) : Prop where
  readable : s.1.Readable e
  fresh_eq : s.1.fresh = op.fresh
  steady : s.1.Steady True e
  reads : e.Reads s.2

theorem Idle.left (h : op.Idle e) (hstart : op.start e = (.ok (), s)) :
    Left e op s ∧ (s.1.prospect e).now = op.course e := by
  obtain ⟨he, hfresh, hnow, hsteady⟩ := h.opened hstart
  exact ⟨⟨(readable_congr hfresh).2 h.readable, hfresh, hsteady, he⟩, hnow⟩

namespace Left

theorem follows (h : Left e op s) (hfollows : s.1.Follows True e s'.1) (he : e.Reads s'.2) :
    Left e op s' where
  readable := (readable_congr hfollows.fresh_eq).2 h.readable
  fresh_eq := hfollows.fresh_eq.trans h.fresh_eq
  steady := hfollows.steady h.steady
  reads := he

/-- A row that is pulled is the first of those to come; if there is none, none comes later. -/
theorem pull (h : Left e op s) {row : Option Tuple} (hpull : s.1.pull n s.2 = (.ok row, s')) :
    Left e op s' ∧ (s.1.prospect e).now = .prepend row.toList (s'.1.prospect e).now ∧
      (row = none → (s'.1.prospect e).now = .ended) := by
  obtain ⟨he, hfollows, hnow⟩ := met_of_pull True h.readable h.reads hpull nofun
  refine ⟨h.follows hfollows he, ?_, ?_⟩
  · cases row with
    | none => exact hnow.trans (now_of_pull_none e hpull).symm
    | some row => exact hnow
  · rintro rfl
    exact now_of_pull_none e hpull

/-- A call gives the first of the rows to come, or none. -/
theorem call (h : Left e op s) {given : List Tuple} (hcall : Call s given s') :
    Left e op s' ∧ (s.1.prospect e).now = .prepend given (s'.1.prospect e).now := by
  cases hcall with
  | look hlook =>
    obtain ⟨row, op', hpull, -, hsame⟩ := pull_of_hasNext hlook
    obtain ⟨he, hfollows, -⟩ := met_hasNext True h.readable h.reads hlook
    refine ⟨h.follows hfollows he, ?_⟩
    rw [(h.pull hpull).2.1, hsame, prospect_setPeeked (ready_of_pull hpull)]
    rfl
  | take htake =>
    obtain ⟨hleft, hnow, -⟩ := h.pull (pull_of_next htake)
    exact ⟨hleft, hnow⟩
  | ended hended =>
    obtain ⟨hleft, hnow, -⟩ := h.pull hended
    exact ⟨hleft, hnow⟩
  | elsewhere hreads =>
    exact ⟨⟨h.readable, h.fresh_eq, h.steady, h.reads.trans hreads⟩, rfl⟩

/-- Draining gives the rows to come, and then the end has come. -/
theorem drain (h : Left e op s) {found : List Tuple} (hdrain : Drain s found) :
    (s.1.prospect e).now = .ofList found := by
  induction hdrain with
  | looked hlook => exact (met_hasNext True h.readable h.reads hlook).2.2
  | ended hended => exact (met_of_pull True h.readable h.reads hended nofun).2.2
  | @call s s' given rest hcall _ ih =>
    obtain ⟨hleft, hnow⟩ := h.call hcall
    rw [hnow, ih hleft, Feed.ofList, Feed.ofList, Feed.prepend_append]

/-! ### Back to the start -/

/-- On the way back a tree comes to its start. -/
theorem back (h : Left e op s) (hback : Back s s') :
    Left e op s' ∧ (s'.1.prospect e).now = op.course e := by
  cases hback with
  | rewind hrewind =>
    have hrewound := rewound True h.readable h.reads
    rw [hrewind] at hrewound
    obtain ⟨he, hfresh, hprospect, hsteady⟩ := hrewound
    refine ⟨⟨(readable_congr hfresh).2 h.readable, hfresh.trans h.fresh_eq, hsteady h.steady, he⟩,
      ?_⟩
    rw [hprospect, h.steady.again_eq, course_congr h.fresh_eq]
  | reopen hreopen =>
    have hclosed := (readable_congr (fresh_close s.1)).2 h.readable
    have hrested := h.readable.rested_close
    have hstarted := started hclosed h.reads
    rw [hreopen] at hstarted
    obtain ⟨he, hfresh, hprospect, hopened⟩ := hstarted
    have hsame := hfresh.trans (fresh_close s.1)
    refine ⟨⟨(readable_congr hfresh).2 hclosed, hsame.trans h.fresh_eq,
      hopened hrested, he⟩, ?_⟩
    rw [hprospect, opened_of_rested hrested, course_congr ((fresh_close s.1).trans h.fresh_eq)]

/-- A tree that was left is still one after a turn. -/
theorem turn (h : Left e op s) (hturn : Turn s s') : Left e op s' := by
  rcases hturn with ⟨given, hcall⟩ | hback
  · exact (h.call hcall).1
  · exact (h.back hback).1

/-- A tree that was left is still one after any turns. -/
theorem turns (h : Left e op s) (hturns : Relation.ReflTransGen Turn s s') : Left e op s' := by
  induction hturns with
  | refl => exact h
  | tail _ hturn ih => exact ih.turn hturn

/-- A tree at its start is drained, if no call can fail. -/
theorem drain_of_total (h : Left e op s) (hnow : (s.1.prospect e).now = op.course e)
    (htotal : op.Total e) : Drain s (op.answer e) := by
  obtain ⟨n, t, hcollect⟩ := htotal.collect h.fresh_eq hnow h.readable h.reads
  exact drain_of_collect hcollect

end Left

/-! ### Draining -/

/-- **Rows come again.** A tree of queries that was used without a failure and then sent back, by a
rewinding or by closing and opening, gives the rows of its first drain again. -/
theorem replay_built (h : op.Built e)
    (hcurrent : ∀ db table, op.Scans db table → (e.store db).Current table)
    {first last again : Operator × Engine} (hstart : op.start e = (.ok (), first))
    (hturns : Relation.ReflTransGen Turn first last) (hback : Back last again) :
    (∀ found found', Drain first found → Drain again found' → found' = found) ∧
    (∃ n o, Finished o ∧ ∀ m, n ≤ m → again.1.collect m again.2 = o) ∧
    (op.Total e → ∃ found, Drain first found ∧ Drain again found) := by
  obtain ⟨hfirst, hnow⟩ := (h.idle hcurrent).left hstart
  obtain ⟨hagain, hnow'⟩ := (hfirst.turns hturns).back hback
  refine ⟨?_, ?_, ?_⟩
  · intro found found' hdrain hdrain'
    refine Feed.ofList_inj ?_
    rw [← hagain.drain hdrain', ← hfirst.drain hdrain, hnow, hnow']
  · obtain ⟨o, ho, -, n, hn⟩ := collected hagain.readable hagain.reads
    exact ⟨n, o, ho, hn⟩
  · intro htotal
    exact ⟨op.answer e, hfirst.drain_of_total hnow htotal, hagain.drain_of_total hnow' htotal⟩

theorem exists_eq_ok {α : Type} {x : Except DbError α} (h : x.toOption.isSome) :
    ∃ a, x = .ok a := by
  cases x with
  | error cause => cases h
  | ok a => exact ⟨a, rfl⟩

/-- The loop over counts is left with a row that was looked at, and most of the right rows for its
left row behind it. Rewound, it gives all of its four rows again. -/
theorem replay_loopOverCounts :
    let first := (loopOverCounts.start someNumbers).2
    let taken := first.1.next 20 first.2
    let looked := taken.2.1.hasNext 20 taken.2.2
    let again := looked.2.1.rewind looked.2.2
    let found := first.1.collect 20 first.2
    let found' := again.2.1.collect 20 again.2.2
    taken.1.toOption.isSome ∧ looked.1 = .ok true ∧ looked.2.1.cursor.peeked.isSome ∧
      again.1 = .ok () ∧ found.1.toOption.isSome ∧ found'.1 = found.1 := by
  intro first taken looked again found found'
  have hstart : loopOverCounts.start someNumbers = (.ok (), first) :=
    Prod.ext loopOverCounts_opened rfl
  have htaken : taken.1.toOption.isSome := by decide +kernel
  have hlooked : looked.1 = .ok true := by decide +kernel
  have hpeeked : looked.2.1.cursor.peeked.isSome := by decide +kernel
  have hagain : again.1 = .ok () := by decide +kernel
  have hfound : found.1.toOption.isSome := by decide +kernel
  have hfound' : found'.1.toOption.isSome := by decide +kernel
  refine ⟨htaken, hlooked, hpeeked, hagain, hfound, ?_⟩
  -- what each call came to is known, so that none of them has to be computed again
  have htake : first.1.next 20 first.2 = taken := rfl
  have hlook : taken.2.1.hasNext 20 taken.2.2 = looked := rfl
  have hrewind : looked.2.1.rewind looked.2.2 = again := rfl
  have hcollect : first.1.collect 20 first.2 = found := rfl
  have hcollect' : again.2.1.collect 20 again.2.2 = found' := rfl
  clear_value found' found again looked taken first
  obtain ⟨row, hrow⟩ := exists_eq_ok htaken
  obtain ⟨rows, hrows⟩ := exists_eq_ok hfound
  obtain ⟨rows', hrows'⟩ := exists_eq_ok hfound'
  have hturns : Relation.ReflTransGen Turn first looked.2 := by
    have htook : Turn first taken.2 := .inl ⟨[row], .take (htake.trans (Prod.ext hrow rfl))⟩
    have hsaw : Turn taken.2 looked.2 := .inl ⟨[], .look (hlook.trans (Prod.ext hlooked rfl))⟩
    exact (Relation.ReflTransGen.single htook).tail hsaw
  have hback : Back looked.2 again.2 := .rewind (hrewind.trans (Prod.ext hagain rfl))
  have hdrain : Drain first rows := drain_of_collect (hcollect.trans (Prod.ext hrows rfl))
  have hdrain' : Drain again.2 rows' := drain_of_collect (hcollect'.trans (Prod.ext hrows' rfl))
  obtain ⟨hsame, -, -⟩ := replay_built loopOverCounts_built loopOverCounts_current hstart hturns
    hback
  rw [hrows, hrows', hsame rows rows' hdrain hdrain']

end Operator

end Rowstore
