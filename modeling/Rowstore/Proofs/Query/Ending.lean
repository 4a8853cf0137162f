import Mathlib
import Rowstore.Operator.Steps
import Rowstore.Proofs.Store.Failing

/-!
# Pulls that end

A pull is given a number of steps. `Settles f P` says that `f` ends when it is given enough of
them, and comes to one outcome from then on, of which `P` holds. Outcomes are put together by
`Settles.andThen`, and the rows of an operator are taken one after another by `Settles.drain`; so
the count of steps need not be looked at again.

Nothing but a pull can run out of steps: all that a pull uses fails for other causes, those that are
`DbError.isProper`.
-/

namespace Rowstore

/-- Nothing but a pull can run out of steps. -/
theorem Finished.error {σ α : Type} {cause : DbError} {s : σ} (h : cause.isProper) :
    Finished ((.error cause, s) : Outcome σ α) :=
  (FailsOnly.error h : FailsOnly _ (.error cause : Except DbError α)).ne_error _ rfl

/-! ### Settling -/

/-- Given enough steps `f` ends, and from then on it comes to one outcome, of which `P` holds. -/
def Settles {σ α : Type} (f : Nat → Outcome σ α) (P : Outcome σ α → Prop) : Prop :=
  ∃ o, Finished o ∧ P o ∧ ∃ n, ∀ m, n ≤ m → f m = o

namespace Settles

variable {σ τ α β : Type} {f : Nat → Outcome σ α} {P Q : Outcome σ α → Prop}

theorem mono (h : Settles f P) (hPQ : ∀ o, P o → Q o) : Settles f Q := by
  obtain ⟨o, ho, hP, hf⟩ := h
  exact ⟨o, ho, hPQ o hP, hf⟩

/-- What needs no steps settles at once. -/
theorem at_once {o : Outcome σ α} (ho : Finished o) (hP : P o) : Settles (fun _ => o) P :=
  ⟨o, ho, hP, 0, fun _ _ => rfl⟩

theorem ok {a : α} {s : σ} (hP : P (.ok a, s)) : Settles (fun _ => (.ok a, s)) P :=
  at_once nofun hP

/-- One step more or less makes no difference. -/
theorem of_succ (h : Settles (fun n => f (n + 1)) P) : Settles f P := by
  obtain ⟨o, ho, hP, n, hf⟩ := h
  refine ⟨o, ho, hP, n + 1, fun m hm => ?_⟩
  obtain ⟨m, rfl⟩ : ∃ k, m = k + 1 := ⟨m - 1, by omega⟩
  exact hf m (by omega)

theorem succ (h : Settles f P) : Settles (fun n => f (n + 1)) P := by
  obtain ⟨o, ho, hP, n, hf⟩ := h
  exact ⟨o, ho, hP, n, fun m hm => hf (m + 1) (by omega)⟩

/-- What settles, and does not change with more steps once it has ended, is what it settles at as
soon as it has ended. -/
theorem of_finished (h : Settles f P) (hsteps : ∀ m n, m ≤ n → Finished (f m) → f n = f m) {n : Nat}
    (hn : Finished (f n)) : P (f n) := by
  obtain ⟨o, -, hP, k, hk⟩ := h
  have hsame : f n = o := by
    rw [← hk (max n k) (le_max_right n k)]
    exact (hsteps n _ (le_max_left n k) hn).symm
  rwa [hsame]

/-- What goes on from something that settles, and settles in each case, settles. -/
theorem andThen {keep : σ → τ} {next : Nat → α → σ → Outcome τ β} {R : Outcome τ β → Prop}
    (h : Settles f P)
    (herror : ∀ cause s, P (.error cause, s) → R (.error cause, keep s))
    (hok : ∀ a s, P (.ok a, s) → Settles (fun n => next n a s) R) :
    Settles (fun n => (f n).andThen keep (next n)) R := by
  obtain ⟨⟨cause | a, s⟩, ho, hP, n, hf⟩ := h
  · refine ⟨(.error cause, keep s), ?_, herror cause s hP, n, fun m hm => ?_⟩
    · intro hcause
      cases hcause
      exact ho rfl
    · show (f m).andThen keep (next m) = _
      rw [hf m hm, Outcome.andThen_error]
  · obtain ⟨o, ho', hR, k, hnext⟩ := hok a s hP
    refine ⟨o, ho', hR, max n k, fun m hm => ?_⟩
    show (f m).andThen keep (next m) = o
    rw [hf m (by omega), Outcome.andThen_ok]
    exact hnext m (by omega)

/-- What goes on from something that settles at one value is all that is left to settle. -/
theorem andThen_of_ok {a : α} {s : σ} {keep : σ → τ} {next : Nat → α → σ → Outcome τ β}
    {R : Outcome τ β → Prop} (h : Settles f (· = (.ok a, s)))
    (hnext : Settles (fun n => next n a s) R) :
    Settles (fun n => (f n).andThen keep (next n)) R := by
  refine h.andThen nofun ?_
  rintro _ _ ⟨⟩
  exact hnext

/-- All rows of an operator are taken when the first is and then the others are. -/
theorem drain {op : Operator} {e : Engine} {state : σ}
    {take : σ → Tuple → Engine → Outcome Engine σ}
    {P : Operator.Pulled (Option Tuple) → Prop} {R : Operator.Pulled σ → Prop}
    (h : Settles (fun n => op.pull n e) P)
    (herror : ∀ cause s, P (.error cause, s) → R (.error cause, s))
    (hend : ∀ op e, P (.ok none, op, e) → R (.ok state, op, e))
    (hrow : ∀ row op e, P (.ok (some row), op, e) → Settles (fun n =>
      (take state row e).andThen (fun e => (op, e)) fun state e =>
        Operator.drainWith (Operator.pull n) take n state op e) R) :
    Settles (fun n => Operator.drainWith (Operator.pull n) take n state op e) R := by
  refine of_succ (h.succ.andThen herror ?_)
  rintro (_ | row) ⟨op, e⟩ hpull
  · exact ok (hend op e hpull)
  · obtain ⟨o, ho, hR, n, htake⟩ := hrow row op e hpull
    refine ⟨o, ho, hR, n, fun m hm => ?_⟩
    have hm := htake m hm
    rw [← hm] at ho ⊢
    -- the other rows may be pulled with one step more each, as they are pulled to an end anyway
    exact Finished.andThen_congr (fun _ => rfl) (fun state e =>
      (Operator.pull_of_le (Nat.le_succ m)).drainWith take le_rfl state op e) ho

end Settles

end Rowstore
