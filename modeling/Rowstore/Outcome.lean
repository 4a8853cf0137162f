import Rowstore.Error

/-!
# Outcomes

What an operation on a state comes to when its effects survive a failure: a value or the cause of
the failure, and the state that was reached either way. An operation that changes nothing when it
fails gives an `Except` instead.
-/

namespace Rowstore

/-- A value or a cause, and the state reached. -/
abbrev Outcome (σ α : Type) := Except DbError α × σ

namespace Outcome

variable {σ τ α β : Type}

/-- Go on from a value. A failure ends here, in the state that `keep` makes of the one reached. -/
@[inline] def andThen (o : Outcome σ α) (keep : σ → τ) (next : α → σ → Outcome τ β) :
    Outcome τ β :=
  match o with
  | (.ok a, s) => next a s
  | (.error cause, s) => (.error cause, keep s)

/-- Do an operation that changes nothing when it fails. -/
def ofExcept (s : σ) (result : Except DbError (α × σ)) : Outcome σ α :=
  match result with
  | .ok (a, s) => (.ok a, s)
  | .error cause => (.error cause, s)

@[simp] theorem andThen_ok (a : α) (s : σ) (keep : σ → τ) (next : α → σ → Outcome τ β) :
    andThen (.ok a, s) keep next = next a s := rfl

@[simp] theorem andThen_error (cause : DbError) (s : σ) (keep : σ → τ)
    (next : α → σ → Outcome τ β) :
    andThen (.error cause, s) keep next = (.error cause, keep s) := rfl

theorem andThen_eq_ok_iff {o : Outcome σ α} {keep : σ → τ} {next : α → σ → Outcome τ β} {b : β}
    {t : τ} : o.andThen keep next = (.ok b, t) ↔ ∃ a s, o = (.ok a, s) ∧ next a s = (.ok b, t) := by
  constructor
  · intro h
    obtain ⟨cause | a, s⟩ := o
    · cases h
    · exact ⟨a, s, rfl, h⟩
  · rintro ⟨a, s, rfl, h⟩
    exact h

@[simp] theorem ofExcept_ok (s : σ) (a : α) (t : σ) : ofExcept s (.ok (a, t)) = (.ok a, t) := rfl

@[simp] theorem ofExcept_error (s : σ) (cause : DbError) :
    (ofExcept s (.error cause) : Outcome σ α) = (.error cause, s) := rfl

end Outcome

end Rowstore
