import Rowstore.Operator.Pull

/-!
# Steps of a pull

A pull that ends within some count of steps comes to the same within any larger one
(`fetch_of_le`), so what a pull comes to does not depend on the steps allowed for it. The same holds
behind the cursor, for `pull`, `hasNext`, `next` and `collect`.
-/

namespace Rowstore

/-- A pull has ended: it did not run out of steps. -/
def Finished {σ α : Type} (o : Outcome σ α) : Prop := o.1 ≠ .error .unfinished

namespace Finished

variable {σ τ α β : Type}

/-- Going on from outcomes that agree if they have ended gives outcomes that agree if they have. -/
theorem andThen_congr {o o' : Outcome σ α} {keep : σ → τ} {next next' : α → σ → Outcome τ β}
    (ho : Finished o → o' = o)
    (hnext : ∀ a s, Finished (next a s) → next' a s = next a s)
    (h : Finished (o.andThen keep next)) :
    o'.andThen keep next' = o.andThen keep next := by
  obtain ⟨result, s⟩ := o
  cases result with
  | ok a =>
    have heq := ho (by simp [Finished])
    subst heq
    exact hnext a s h
  | error cause =>
    have heq := ho (by simpa [Finished] using h)
    subst heq
    rfl

end Finished

namespace Operator

/-- `g` comes to what `f` comes to, wherever `f` ends. -/
def Extends {α : Type} (f g : Operator → Engine → Pulled α) : Prop :=
  ∀ op e, Finished (f op e) → g op e = f op e

theorem Extends.pullWith {f g : Operator → Engine → Pulled (Option Tuple)} (h : Extends f g) :
    Extends (pullWith f) (pullWith g) := by
  intro op e hf
  unfold Operator.pullWith at hf ⊢
  split
  · rfl
  · rename_i hopen
    simp only [hopen, if_false] at hf
    split
    · rfl
    · rename_i hpeeked
      simp only [hpeeked] at hf
      exact h op e hf

theorem Extends.drainWith {σ : Type} {f g : Operator → Engine → Pulled (Option Tuple)}
    (h : Extends f g) (take : σ → Tuple → Engine → Outcome Engine σ) {m n : Nat} (hmn : m ≤ n)
    (state : σ) :
    Extends (drainWith f take m state) (drainWith g take n state) := by
  induction m generalizing n state with
  | zero =>
    intro op e hf
    simp [Finished, Operator.drainWith] at hf
  | succ m ih =>
    obtain ⟨n, rfl⟩ : ∃ k, n = k + 1 := ⟨n - 1, by omega⟩
    intro op e hf
    unfold Operator.drainWith at hf ⊢
    apply Finished.andThen_congr (h op e) _ hf
    rintro (_ | row) ⟨op, e⟩ hf
    · rfl
    · apply Finished.andThen_congr (fun _ => rfl) _ hf
      intro state e hf
      exact ih (by omega) state op e hf

/-- One more step changes nothing about a pull that has ended. -/
theorem fetch_succ (n : Nat) : Extends (fetch n) (fetch (n + 1)) := by
  induction n with
  | zero =>
    intro op e h
    simp [Finished, fetch] at h
  | succ n ih =>
    have hpull := ih.pullWith
    intro op e h
    match op with
    | .rows _ _ [] _ | .rows _ _ (_ :: _) _ | .scan .. => rfl
    | .filter predicate child c =>
      rw [fetch] at h ⊢
      rw [fetch]
      apply Finished.andThen_congr (hpull child e) _ h
      rintro (_ | row) ⟨child, e⟩ h
      · rfl
      · dsimp only at h ⊢
        split <;> rename_i hholds <;> simp only [hholds] at h ⊢
        exact ih _ _ h
    | .nestedLoop _ _ left _ _ none _ =>
      rw [fetch] at h ⊢
      rw [fetch]
      apply Finished.andThen_congr (hpull left e) _ h
      rintro (_ | row) ⟨left, e⟩ h
      · rfl
      · exact ih _ _ h
    | .nestedLoop _ _ _ right _ (some _) _ =>
      rw [fetch] at h ⊢
      rw [fetch]
      apply Finished.andThen_congr (hpull right e) _ h
      rintro (_ | row) ⟨right, e⟩ h
      · apply Finished.andThen_congr (fun _ => rfl) _ h
        rintro _ ⟨right, e⟩ h
        exact ih _ _ h
      · dsimp only at h ⊢
        split <;> rename_i hholds <;> simp only [hholds] at h ⊢
        exact ih _ _ h
    | .hashJoin _ _ left _ _ none _ _ =>
      rw [fetch] at h ⊢
      rw [fetch]
      apply Finished.andThen_congr (hpull.drainWith _ (by omega) _ left e) _ h
      rintro table ⟨left, e⟩ h
      exact ih _ _ h
    | .hashJoin _ _ _ _ _ (some _) (_ :: _) _ => rfl
    | .hashJoin _ _ _ right _ (some _) [] _ =>
      rw [fetch] at h ⊢
      rw [fetch]
      apply Finished.andThen_congr (hpull right e) _ h
      rintro (_ | probe) ⟨right, e⟩ h
      · rfl
      · dsimp only at h ⊢
        split <;> rename_i hfield <;> simp only [hfield] at h ⊢
        exact ih _ _ h
    | .aggregate column group fn child _ none _ =>
      rw [fetch] at h ⊢
      rw [fetch]
      split <;> rename_i hnew <;> simp only [hnew] at h ⊢
      apply Finished.andThen_congr (hpull.drainWith _ (by omega) _ child e) _ h
      rintro a ⟨child, e⟩ h
      dsimp only at h ⊢
      split <;> rename_i hrows <;> simp only [hrows] at h ⊢
      exact ih _ _ h
    | .aggregate _ _ _ _ _ (some []) _ | .aggregate _ _ _ _ _ (some (_ :: _)) _ => rfl
    | .insert _ _ _ _ _ true _ | .delete _ _ _ true _ => rfl
    | .insert _ _ _ _ child false _ =>
      rw [fetch] at h ⊢
      rw [fetch]
      exact Finished.andThen_congr (hpull.drainWith _ (by omega) _ child e) (fun _ _ _ => rfl) h
    | .delete _ _ child false _ =>
      rw [fetch] at h ⊢
      rw [fetch]
      exact Finished.andThen_congr (hpull.drainWith _ (by omega) _ child e) (fun _ _ _ => rfl) h

/-- More steps change nothing about a pull that has ended. -/
theorem fetch_of_le {m n : Nat} (h : m ≤ n) : Extends (fetch m) (fetch n) := by
  intro op e hf
  induction h with
  | refl => rfl
  | step _ ih => rw [fetch_succ _ op e (by rw [ih]; exact hf), ih]

theorem pull_of_le {m n : Nat} (h : m ≤ n) : Extends (pull m) (pull n) :=
  (fetch_of_le h).pullWith

theorem hasNext_of_le {m n : Nat} (h : m ≤ n) : Extends (hasNext m) (hasNext n) :=
  fun op e => Finished.andThen_congr (pull_of_le h op e) fun _ _ _ => rfl

theorem next_of_le {m n : Nat} (h : m ≤ n) : Extends (next m) (next n) :=
  fun op e => Finished.andThen_congr (pull_of_le h op e) fun _ _ _ => rfl

theorem collect_of_le {m n : Nat} (h : m ≤ n) : Extends (collect m) (collect n) :=
  fun op e => Finished.andThen_congr ((pull_of_le h).drainWith _ h _ op e) fun _ _ _ => rfl

end Operator

end Rowstore
