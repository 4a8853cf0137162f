import Mathlib
import Rowstore.Proofs.Query.Asking
import Rowstore.Proofs.Query.Obeying

/-!
# Going back after a failure

A tree over rows in memory is opened and driven by calls of `hasNext`, `next` and `rewind`, some of
which fail, `Operator.Use`. Then it is sent back to its start, and all its rows are taken until they
end or a call fails, `Operator.Drains`.

* A drain gives what the prospect of the tree says, whichever calls it is made of,
  `Operator.drains_iff`.
* A tree stays steady through calls that fail, if every join by a table can take all its left rows,
  `Operator.Used`. So it gives again what it gave, or would have given, when it was opened.
* A join by a table that failed at one of its left rows has no table, and does not send its left
  child back. It makes the table of the rows that are left then, and misses the others.
* So what is drained is determined in any case, the failure at which a drain ends included, and it
  is the first drain again as long as the tree is steady: `Operator.recovered_built`.
-/

namespace Rowstore

namespace Operator

/-! ### Drains -/

/-- The rows of calls of `hasNext` and `next`, until there is no row left or a call fails. -/
inductive Drains : Operator × Engine → Feed → Prop
  | look {s s' n f} (h : s.1.hasNext n s.2 = (.ok true, s')) (hrest : Drains s' f) : Drains s f
  | take {s s' n row f} (h : s.1.next n s.2 = (.ok row, s')) (hrest : Drains s' f) :
      Drains s (.row row f)
  | looked {s s' n} (h : s.1.hasNext n s.2 = (.ok false, s')) : Drains s .ended
  | refused {s s' n} (h : s.1.next n s.2 = (.error .noSuchElement, s')) : Drains s .ended
  | blind {s s' n cause} (h : s.1.hasNext n s.2 = (.error cause, s'))
      (hcause : cause ≠ .unfinished) : Drains s (.failed cause)
  | failed {s s' n cause} (h : s.1.next n s.2 = (.error cause, s'))
      (hcause : cause ≠ .unfinished) (hmore : cause ≠ .noSuchElement) : Drains s (.failed cause)

variable {allOpen : Prop} {e e' : Engine} {op op' : Operator} {s s' : Operator × Engine} {n : Nat}

/-- Looking fails where a pull does. -/
theorem hasNext_error_iff {cause : DbError} :
    op.hasNext n e = (.error cause, s) ↔ op.pull n e = (.error cause, s) := by
  unfold hasNext
  generalize op.pull n e = o
  obtain ⟨cause' | row, t⟩ := o
  · refine ⟨fun h => ?_, fun h => ?_⟩ <;> cases h <;> rfl
  · exact ⟨nofun, nofun⟩

/-- `next` fails where a pull does, and at the end of the rows. -/
theorem next_error_iff {cause : DbError} (hmore : cause ≠ .noSuchElement) :
    op.next n e = (.error cause, s) ↔ op.pull n e = (.error cause, s) := by
  unfold next
  generalize op.pull n e = o
  obtain ⟨cause' | (_ | row), t⟩ := o
  · refine ⟨fun h => ?_, fun h => ?_⟩ <;> cases h <;> rfl
  · refine ⟨fun h => ?_, nofun⟩
    cases h
    exact absurd rfl hmore
  · exact ⟨nofun, nofun⟩

/-- `next` refuses at the end of the rows alone. -/
theorem pull_of_refused (h : op.next n e = (.error .noSuchElement, s)) :
    op.pull n e = (.ok none, s) := next_eq_told_iff.1 (h : _ = (told none, s))

/-- A drain gives what is said to come. A scan can fail too, and then nothing is said. -/
theorem Drains.eq_now {f : Feed} (h : Drains s f) (hop : s.1.Readable e) (he : e.Reads s.2)
    (hsure : s.1.InMemory ∨ f.Ends) : f = (s.1.prospect e).now := by
  induction h with
  | look h hrest ih =>
    obtain ⟨he', hfollows, hnow⟩ := met_hasNext True hop he h
    rw [hnow]
    exact ih ((readable_congr hfollows.fresh_eq).2 hop) he'
      (hsure.imp_left (inMemory_congr hfollows.fresh_eq).2)
  | take h hrest ih =>
    obtain ⟨he', hfollows, hnow⟩ := met_of_pull True hop he (pull_of_next h) nofun
    rw [hnow, ih ((readable_congr hfollows.fresh_eq).2 hop) he'
      (hsure.imp_left (inMemory_congr hfollows.fresh_eq).2)]
    rfl
  | looked h => exact (met_hasNext True hop he h).2.2.symm
  | refused h =>
    exact (met_of_pull True hop he (pull_of_refused h) nofun).2.2.symm
  | blind h hcause =>
    have hpull := hasNext_error_iff.1 h
    have hfailed := met_of_pull True hop he hpull fun hsame => hcause (Except.error.inj hsame)
    exact (hfailed.2.2 (hsure.resolve_right id)).symm
  | failed h hcause hmore =>
    have hpull := (next_error_iff hmore).1 h
    have hfailed := met_of_pull True hop he hpull fun hsame => hcause (Except.error.inj hsame)
    exact (hfailed.2.2 (hsure.resolve_right id)).symm

/-- What is said to come is drained by calls of `next`, if the rows are in memory. -/
theorem drains_now (hmemory : s.1.InMemory) (he : e.Reads s.2) : Drains s (s.1.prospect e).now := by
  induction hsize : (s.1.prospect e).now.size using Nat.strong_induction_on generalizing s with
  | _ size ih =>
    obtain ⟨⟨result, t⟩, hfinished, hmet, n, hn⟩ :=
      obeys True (hmemory.readable e) rfl he
    have hpull : s.1.pull n s.2 = (result, t) := hn n le_rfl
    match result with
    | .error cause =>
      obtain ⟨-, -, hcause⟩ := hmet
      rw [hcause hmemory]
      -- no pull fails as `next` does at the end of the rows
      have hmore : cause ≠ .noSuchElement := by
        rintro rfl
        exact (pull_handed n s.1 s.2).fails (congrArg Prod.fst hpull)
      exact .failed ((next_error_iff hmore).2 hpull)
        (fun hsame => hfinished (congrArg Except.error hsame)) hmore
    | .ok none =>
      obtain ⟨-, -, hnow⟩ := hmet
      rw [hnow]
      exact .refused (next_of_ended hpull)
    | .ok (some row) =>
      obtain ⟨he', hfollows, hnow⟩ := hmet
      rw [hnow]
      exact .take (next_of_pull hpull) (ih _ (hsize ▸ Feed.size_lt hnow)
        ((inMemory_congr hfollows.fresh_eq).2 hmemory) he' rfl)

/-- In memory, a drain gives what is said to come, and there is one. -/
theorem drains_iff (hmemory : s.1.InMemory) (he : e.Reads s.2) (f : Feed) :
    Drains s f ↔ f = (s.1.prospect e).now := by
  refine ⟨fun h => h.eq_now (hmemory.readable e) he (.inl hmemory), ?_⟩
  rintro rfl
  exact drains_now hmemory he

/-! ### Uses -/

/-- A call that may fail, and does not run out of steps. -/
inductive Use (s s' : Operator × Engine) : Prop
  | look {n : Nat} {result : Except DbError Bool} (h : s.1.hasNext n s.2 = (result, s'))
      (hresult : result ≠ .error .unfinished)
  | take {n : Nat} {result : Except DbError Tuple} (h : s.1.next n s.2 = (result, s'))
      (hresult : result ≠ .error .unfinished)
  | rewind {result : Except DbError Unit} (h : s.1.rewind s.2 = (result, s'))

/-- A tree over rows in memory was opened and used. It is steady if its joins can take their left
rows. -/
structure Used (e : Engine) (op : Operator) (s : Operator × Engine) : Prop where
  fresh_eq : s.1.fresh = op.fresh
  reads : e.Reads s.2
  steady : op.Keyed e → s.1.Steady True e

namespace Used

theorem follows (h : Used e op s) (hfollows : s.1.Follows True e op') (he : e.Reads e') :
    Used e op (op', e') where
  fresh_eq := hfollows.fresh_eq.trans h.fresh_eq
  reads := he
  steady := fun hkeyed => hfollows.steady (h.steady hkeyed)

/-- A pull that fails leaves a tree that is steady, if its joins can take their left rows. -/
theorem pull_error (h : Used e op s) (hmemory : op.InMemory) {cause : DbError}
    (hpull : s.1.pull n s.2 = (.error cause, s')) (hcause : cause ≠ .unfinished) :
    Used e op s' := by
  have hmemory' := (inMemory_congr h.fresh_eq).2 hmemory
  obtain ⟨he, hfails, -⟩ := met_of_pull True (hmemory'.readable e) h.reads hpull
    fun hsame => hcause (Except.error.inj hsame)
  exact ⟨hfails.fresh_eq.trans h.fresh_eq, he, fun hkeyed => hfails.steady trivial hmemory'
    ((keyed_congr h.fresh_eq).2 hkeyed) (h.steady hkeyed)⟩

theorem pull_ok (h : Used e op s) (hmemory : op.InMemory) {row : Option Tuple}
    (hpull : s.1.pull n s.2 = (.ok row, s')) : Used e op s' := by
  have hmemory' := (inMemory_congr h.fresh_eq).2 hmemory
  obtain ⟨he, hfollows, -⟩ :=
    met_of_pull True (hmemory'.readable e) h.reads hpull nofun
  exact h.follows hfollows he

/-- Every call leaves a tree that was used, if it fails or not. -/
theorem use (h : Used e op s) (hmemory : op.InMemory) (huse : Use s s') : Used e op s' := by
  have hmemory' := (inMemory_congr h.fresh_eq).2 hmemory
  cases huse with
  | @look n result hlook hresult =>
    cases result with
    | error cause =>
      exact h.pull_error hmemory (hasNext_error_iff.1 hlook) fun hsame => hresult (hsame ▸ rfl)
    | ok more =>
      obtain ⟨he, hfollows, -⟩ :=
        met_hasNext True (hmemory'.readable e) h.reads hlook
      exact h.follows hfollows he
  | @take n result htake hresult =>
    cases result with
    | error cause =>
      by_cases hmore : cause = .noSuchElement
      · subst hmore
        exact h.pull_ok hmemory (pull_of_refused htake)
      · exact h.pull_error hmemory ((next_error_iff hmore).1 htake)
          fun hsame => hresult (hsame ▸ rfl)
    | ok row => exact h.pull_ok hmemory (pull_of_next htake)
  | @rewind result hrewind =>
    have hrewound := rewound True (hmemory'.readable e) h.reads
    rw [hrewind] at hrewound
    cases result with
    | error cause => exact absurd hmemory' hrewound.2
    | ok u =>
      obtain ⟨he, hfresh, -, hsteady⟩ := hrewound
      exact ⟨hfresh.trans h.fresh_eq, he, fun hkeyed => hsteady (h.steady hkeyed)⟩

theorem uses (h : Used e op s) (hmemory : op.InMemory) (huses : Relation.ReflTransGen Use s s') :
    Used e op s' := by
  induction huses with
  | refl => exact h
  | tail _ huse ih => exact ih.use hmemory huse

end Used

/-! ### Recovery -/

/-- A tree over rows in memory that was put together is opened. -/
theorem Built.opened_used (h : op.Built e) (hmemory : op.InMemory) :
    ∃ first, op.start e = (.ok (), first) ∧ Used e op first ∧
      (first.1.prospect e).now = op.course e := by
  have hidle : op.Idle e := ⟨hmemory.readable e, h.fresh_eq⟩
  have hstarted := started hidle.readable (.refl e)
  generalize hstart : op.start e = o at hstarted
  obtain ⟨cause | u, first⟩ := o
  · exact absurd hmemory hstarted
  · obtain ⟨he, hfresh, hnow, hsteady⟩ := hidle.opened hstart
    exact ⟨first, rfl, ⟨hfresh, he, fun _ => hsteady⟩, hnow⟩

/-- **Going back after failures.** What is drained then is determined, and is the first drain again
if the joins by a table are steady. -/
theorem recovered_built (h : op.Built e) (hmemory : op.InMemory) :
    ∃ first, op.start e = (.ok (), first) ∧ (∀ f, Drains first f ↔ f = op.course e) ∧
      ∀ last, Relation.ReflTransGen Use first last →
        ∃ again, last.1.rewind last.2 = (.ok (), again) ∧
          (∀ f, Drains again f ↔ f = (last.1.prospect e).again) ∧
          (last.1.Steady True e → ∀ f, Drains again f ↔ Drains first f) ∧
          (op.Keyed e → last.1.Steady True e) := by
  obtain ⟨first, hstart, hused, hnow⟩ := h.opened_used hmemory
  have hfirst : ∀ f, Drains first f ↔ f = op.course e := fun f => by
    rw [drains_iff ((inMemory_congr hused.fresh_eq).2 hmemory) hused.reads, hnow]
  refine ⟨first, hstart, hfirst, fun last huses => ?_⟩
  have hlast := hused.uses hmemory huses
  have hmemory' := (inMemory_congr hlast.fresh_eq).2 hmemory
  have hrewound := rewound True (hmemory'.readable e) hlast.reads
  generalize last.1.rewind last.2 = o at hrewound
  obtain ⟨cause | u, again⟩ := o
  · exact absurd hmemory' hrewound.2
  · obtain ⟨he, hfresh, hprospect, -⟩ := hrewound
    have hagain : ∀ f, Drains again f ↔ f = (last.1.prospect e).again := fun f => by
      rw [drains_iff ((inMemory_congr hfresh).2 hmemory') he, hprospect]
    refine ⟨again, rfl, hagain, fun hsteady f => ?_, hlast.steady⟩
    rw [hagain, hfirst, hsteady.again_eq, course_congr hlast.fresh_eq]

/-- A join of a one with a one, and with a row that has no value on the right. -/
def oneAndNone : Operator :=
  hashed ⟨0, .equal, 0⟩ (ofRows Store.numbers [Store.number 1])
    (ofRows Store.numbers [Store.number 1, .unset Store.numbers])

/-- After the pair of ones, the join fails at the row without a value. Rewound, it gives the pair
again, and fails at the same row. -/
theorem recovered_oneAndNone :
    let first := (oneAndNone.start (.new [])).2
    let given := first.1.next 9 first.2
    let failed := given.2.1.next 9 given.2.2
    let again := (failed.2.1.rewind failed.2.2).2
    given.1.toOption.isSome ∧ failed.1 = .error (.fieldNotSet 0) ∧
      (failed.2.1.rewind failed.2.2).1 = .ok () ∧ ∀ f, Drains again f ↔ Drains first f := by
  intro first given failed again
  have hgiven : given.1.toOption.isSome := by decide +kernel
  have hfailed : failed.1 = .error (.fieldNotSet 0) := by decide +kernel
  obtain ⟨first', hstart, -, hlast⟩ := recovered_built
    (.hash _ (.rows _ _) (.rows _ _) : oneAndNone.Built (.new [])) ⟨trivial, trivial⟩
  obtain rfl : first' = first := congrArg Prod.snd hstart.symm
  have huses : Relation.ReflTransGen Use first failed.2 := by
    have htook : Use first given.2 := .take (n := 9) rfl fun h => by
      have herror : given.1 = .error .unfinished := h
      rw [herror] at hgiven
      cases hgiven
    have hdrew : Use given.2 failed.2 := .take (n := 9) rfl fun h => by
      cases hfailed.symm.trans h
    exact (Relation.ReflTransGen.single htook).tail hdrew
  obtain ⟨again', hagain, -, hsame, hsteady⟩ := hlast failed.2 huses
  obtain rfl : again' = again := congrArg Prod.snd hagain.symm
  have hkeyed : oneAndNone.Keyed (.new []) := ⟨trivial, trivial, _, rfl⟩
  exact ⟨hgiven, hfailed, congrArg Prod.fst hagain, hsame (hsteady hkeyed)⟩

/-- A join of ones, with a row that has no value on the left, before the one. -/
def noneAndOne : Operator :=
  hashed ⟨0, .equal, 0⟩ (ofRows Store.numbers [.unset Store.numbers, Store.number 1])
    (ofRows Store.numbers [Store.number 1])

/-- The join fails at the row without a value and is rewound. A drain gives the pair of ones then,
and does not fail again. -/
theorem row_missed_after_failure :
    ∃ first last again pair, noneAndOne.Built (.new []) ∧ noneAndOne.InMemory ∧
      noneAndOne.start (.new []) = (.ok (), first) ∧
      first.1.next 9 first.2 = (.error (.fieldNotSet 0), last) ∧
      last.1.rewind last.2 = (.ok (), again) ∧ pair.values = [some (.int 1), some (.int 1)] ∧
      Drains first (.failed (.fieldNotSet 0)) ∧ Drains again (.row pair .ended) ∧
      ¬ Drains again (.failed (.fieldNotSet 0)) := by
  let first := (noneAndOne.start (.new [])).2
  let failed := first.1.next 9 first.2
  let again := (failed.2.1.rewind failed.2.2).2
  let given := again.1.next 9 again.2
  let ended := given.2.1.next 9 given.2.2
  have hfailed : failed.1 = .error (.fieldNotSet 0) := by decide +kernel
  have hgiven : given.1 = .ok ((Store.number 1).concat (Store.number 1)) := by decide +kernel
  have hended : ended.1 = .error .noSuchElement := by decide +kernel
  have hsame : again.2 = .new [] := by decide +kernel
  have hdrain : Drains again (.row ((Store.number 1).concat (Store.number 1)) .ended) :=
    .take (n := 9) (Prod.ext hgiven rfl) (.refused (n := 9) (Prod.ext hended rfl))
  refine ⟨first, failed.2, again, _, .hash _ (.rows _ _) (.rows _ _), ⟨trivial, trivial⟩, rfl,
    Prod.ext hfailed rfl, rfl, rfl, ?_, hdrain, fun hwrong => ?_⟩
  · exact .failed (n := 9) (Prod.ext hfailed rfl) nofun nofun
  · have hmemory : again.1.InMemory := ⟨trivial, trivial⟩
    have hreads : (Engine.new []).Reads again.2 := hsame ▸ .refl _
    rw [drains_iff hmemory hreads] at hwrong hdrain
    cases hwrong.trans hdrain.symm

end Operator

end Rowstore
