import Mathlib
import Rowstore.Aggregator
import Rowstore.Proofs.Codec.Row

/-!
# What an aggregator finds

The rows of an aggregator, told without its accumulators. Each row taken in has an entry, the group
it belongs to and the number it counts as. `groupsOf` puts the numbers of each group together, the
groups in the order in which they were first seen, and `Aggregator.summary` gives one row for each.
An aggregator that has taken in the rows one by one gives the same: `Aggregator.rows_of_foldlM`.
-/

namespace Rowstore

/-- What a function makes of the numbers of a group. -/
def AggregateFunction.over (fn : AggregateFunction) (ns : List Int) : Int :=
  match fn with
  | .min => ns.min?.getD 0
  | .max => ns.max?.getD 0
  | .sum => ns.sum
  | .avg => ns.sum.tdiv ns.length
  | .count => ns.length
  | .sumCount | .scAvg => 0

/-- The numbers of each group, the groups in the order in which they were first seen. -/
def groupsOf (entries : List (Option Value × Int)) : List (Option Value × List Int) :=
  (entries.map Prod.fst).eraseDups.map fun key =>
    (key, (entries.filter fun entry => entry.1 = key).map Prod.snd)

/-- The first entry's group comes first. The others are those of the entries that are not in it. -/
theorem groupsOf_cons (key : Option Value) (n : Int) (entries : List (Option Value × Int)) :
    groupsOf ((key, n) :: entries) =
      (key, n :: (entries.filter fun entry => entry.1 = key).map Prod.snd) ::
        groupsOf (entries.filter fun entry => entry.1 ≠ key) := by
  have hothers : (entries.map Prod.fst).filter (fun other => !other == key) =
      (entries.filter fun entry => entry.1 ≠ key).map Prod.fst := by
    rw [List.filter_map]
    congr 1
    exact List.filter_congr fun entry _ => by simp [beq_eq_decide]
  rw [groupsOf, List.map_cons, List.eraseDups_cons, hothers, List.map_cons]
  congr 1
  · simp
  · refine List.map_congr_left fun other hother => ?_
    have hne : other ≠ key := by
      obtain ⟨entry, hentry, rfl⟩ := List.mem_map.1 (List.mem_eraseDups.1 hother)
      simpa using (List.mem_filter.1 hentry).2
    -- the entries of another group are not among those that are left out
    rw [List.filter_filter, List.filter_cons_of_neg (by simpa using hne.symm)]
    congr 2
    refine List.filter_congr fun entry _ => ?_
    by_cases hentry : entry.1 = other
    · simp [hentry, hne]
    · simp [hentry]

namespace Accumulator

variable (fn : AggregateFunction) (acc : Accumulator) (n : Int) (ns : List Int)

/-- What is known of the numbers of a group when all have been taken in. -/
def ofNumbers : List Int → Accumulator
  | [] => ⟨0, 0⟩
  | n :: ns => ns.foldl (add fn) ⟨n, 1⟩

theorem count_foldl_add : (ns.foldl (add fn) acc).count = acc.count + ns.length := by
  induction ns generalizing acc with
  | nil => rfl
  | cons n ns ih =>
    rw [List.foldl_cons, ih, List.length_cons]
    show acc.count + 1 + ns.length = _
    omega

theorem count_ofNumbers : (ofNumbers fn ns).count = ns.length := by
  cases ns with
  | nil => rfl
  | cons n ns =>
    rw [ofNumbers, count_foldl_add, List.length_cons, Nat.add_comm]

theorem value_foldl_add :
    (ns.foldl (add fn) acc).value = ns.foldl (fun v n => (add fn ⟨v, 0⟩ n).value) acc.value := by
  induction ns generalizing acc with
  | nil => rfl
  | cons n ns ih =>
    rw [List.foldl_cons, ih, List.foldl_cons]
    rfl

theorem foldl_add_sum : ns.foldl (· + ·) n = n + ns.sum := by
  induction ns generalizing n with
  | nil => simp
  | cons m ns ih =>
    rw [List.foldl_cons, ih, List.sum_cons]
    omega

/-- The result over a group is what the function makes of its numbers. -/
theorem result_ofNumbers (h : fn.isReserved = false) :
    (ofNumbers fn (n :: ns)).result fn = fn.over (n :: ns) := by
  have hcount := count_foldl_add fn ⟨n, 1⟩ ns
  have hvalue := value_foldl_add fn ⟨n, 1⟩ ns
  have hlength : ((n :: ns).length : Int) = ((1 + ns.length : Nat) : Int) := by
    rw [List.length_cons, Nat.add_comm]
  cases fn with
  | min =>
    show (ns.foldl (add .min) ⟨n, 1⟩).value = ((n :: ns).min?).getD 0
    rw [hvalue, List.min?_cons']
    rfl
  | max =>
    show (ns.foldl (add .max) ⟨n, 1⟩).value = ((n :: ns).max?).getD 0
    rw [hvalue, List.max?_cons']
    rfl
  | sum =>
    show (ns.foldl (add .sum) ⟨n, 1⟩).value = (n :: ns).sum
    rw [hvalue, List.sum_cons]
    exact foldl_add_sum n ns
  | avg =>
    show (ns.foldl (add .avg) ⟨n, 1⟩).value.tdiv (ns.foldl (add .avg) ⟨n, 1⟩).count =
      (n :: ns).sum.tdiv (n :: ns).length
    rw [hvalue, hcount, hlength, List.sum_cons]
    exact congrArg (Int.tdiv · _) (foldl_add_sum n ns)
  | count =>
    show ((ns.foldl (add .count) ⟨n, 1⟩).count : Int) = (n :: ns).length
    rw [hcount, hlength]
  | sumCount => cases h
  | scAvg => cases h

end Accumulator

namespace Aggregator

variable {a : Aggregator} {rows : List Tuple}

/-- The group of a row, and the number it counts as. -/
def entry (a : Aggregator) (row : Tuple) : Except DbError (Option Value × Int) := do
  let v ← row.field a.column
  let n ← number a.input v
  let key ← groupKey a.grouping row
  return (key, n)

/-- The rows that sum up some rows: one for each group, in the order in which the groups were first
seen. Counting no rows without grouping gives 0. -/
def summary (a : Aggregator) (rows : List Tuple) : Except DbError (List Tuple) :=
  if a.fn.isReserved then .ok []
  else do
    let entries ← rows.mapM a.entry
    if entries.isEmpty ∧ a.grouping.isNone ∧ a.fn = .count then
      (resultRow a.schema none 0).map fun row => [row]
    else (groupsOf entries).mapM fun (key, ns) => resultRow a.schema key (a.fn.over ns)

/-- The groups with the entries taken in. -/
def takeAll (fn : AggregateFunction) (groups : List (Option Value × Accumulator))
    (entries : List (Option Value × Int)) : List (Option Value × Accumulator) :=
  entries.foldl (fun groups entry => addTo fn entry.1 entry.2 groups) groups

/-- The first group gets the entries that are in it, and the others are left to the rest. -/
theorem takeAll_cons (fn : AggregateFunction) (key : Option Value) (acc : Accumulator)
    (groups : List (Option Value × Accumulator)) (entries : List (Option Value × Int)) :
    takeAll fn ((key, acc) :: groups) entries =
      (key, ((entries.filter fun entry => entry.1 = key).map Prod.snd).foldl (.add fn) acc) ::
        takeAll fn groups (entries.filter fun entry => entry.1 ≠ key) := by
  induction entries generalizing acc groups with
  | nil => rfl
  | cons entry entries ih =>
    obtain ⟨other, n⟩ := entry
    by_cases hother : other = key
    · subst hother
      have hadd : addTo fn other n ((other, acc) :: groups) = (other, acc.add fn n) :: groups := by
        rw [addTo, if_pos rfl]
      have hstep := ih (acc.add fn n) groups
      simpa [takeAll, hadd] using hstep
    · have hadd : addTo fn other n ((key, acc) :: groups) =
          (key, acc) :: addTo fn other n groups := by rw [addTo, if_neg (Ne.symm hother)]
      have hstep := ih acc (addTo fn other n groups)
      simpa [takeAll, hadd, hother] using hstep

/-- All entries are taken in, each into its group. -/
theorem takeAll_nil (fn : AggregateFunction) (entries : List (Option Value × Int)) :
    takeAll fn [] entries =
      (groupsOf entries).map fun (key, ns) => (key, Accumulator.ofNumbers fn ns) := by
  induction hlength : entries.length using Nat.strong_induction_on generalizing entries with
  | _ length ih =>
    match entries with
    | [] => rfl
    | (key, n) :: entries =>
      have hlt : (entries.filter fun entry => entry.1 ≠ key).length < length := by
        have hle := List.length_filter_le (fun entry => decide (entry.1 ≠ key)) entries
        simp only [List.length_cons] at hlength
        omega
      show takeAll fn [(key, ⟨n, 1⟩)] entries = _
      rw [takeAll_cons, ih _ hlt _ rfl, groupsOf_cons]
      rfl

/-- Every group has a number. -/
theorem ne_nil_of_mem_groupsOf {entries : List (Option Value × Int)}
    {group : Option Value × List Int} (h : group ∈ groupsOf entries) : group.2 ≠ [] := by
  obtain ⟨key, hkey, rfl⟩ := List.mem_map.1 h
  obtain ⟨entry, hentry, rfl⟩ := List.mem_map.1 (List.mem_eraseDups.1 hkey)
  exact List.ne_nil_of_mem
    (List.mem_map_of_mem (List.mem_filter.2 ⟨hentry, decide_eq_true rfl⟩))

/-- A row is taken in as its entry is. -/
theorem merge_eq (h : a.fn.isReserved = false) (row : Tuple) :
    a.merge row = (a.entry row).map fun entry =>
      { a with groups := addTo a.fn entry.1 entry.2 a.groups } := by
  unfold merge entry
  rw [h]
  cases row.field a.column with
  | error cause => rfl
  | ok v =>
    show (number a.input v >>= fun n => groupKey a.grouping row >>= fun key => _) =
      (number a.input v >>= fun n => groupKey a.grouping row >>= fun key => _).map _
    cases number a.input v with
    | error cause => rfl
    | ok n => cases groupKey a.grouping row <;> rfl

/-- Rows are taken in one by one as their entries are. -/
theorem foldlM_merge (h : a.fn.isReserved = false) (rows : List Tuple) :
    rows.foldlM merge a = (rows.mapM a.entry).map fun entries =>
      { a with groups := takeAll a.fn a.groups entries } := by
  induction rows generalizing a with
  | nil => rfl
  | cons row rows ih =>
    rw [List.foldlM_cons, List.mapM_cons, merge_eq h]
    cases a.entry row with
    | error cause => rfl
    | ok entry =>
      let b : Aggregator := { a with groups := addTo a.fn entry.1 entry.2 a.groups }
      show rows.foldlM merge b = _
      rw [ih (a := b) h, show b.entry = a.entry from rfl]
      cases rows.mapM a.entry <;> rfl

theorem foldlM_merge_of_reserved (h : a.fn.isReserved = true) (rows : List Tuple) :
    rows.foldlM merge a = .ok a := by
  induction rows with
  | nil => rfl
  | cons row rows ih =>
    rw [List.foldlM_cons, show a.merge row = .ok a by rw [merge, if_pos h]]
    exact ih

/-- The rows of the groups are made from their numbers. -/
theorem mapM_result {fn : AggregateFunction} (h : fn.isReserved = false) (schema : Schema)
    (groups : List (Option Value × List Int)) (hgroups : ∀ group ∈ groups, group.2 ≠ []) :
    (groups.map fun (key, ns) => (key, Accumulator.ofNumbers fn ns)).mapM
        (fun (key, acc) => resultRow schema key (acc.result fn)) =
      groups.mapM fun (key, ns) => resultRow schema key (fn.over ns) := by
  induction groups with
  | nil => rfl
  | cons group groups ih =>
    obtain ⟨key, _ | ⟨n, ns⟩⟩ := group
    · exact absurd rfl (hgroups _ List.mem_cons_self)
    · rw [List.map_cons, List.mapM_cons, List.mapM_cons,
        ih fun group hgroup => hgroups group (List.mem_cons_of_mem _ hgroup)]
      simp only [Accumulator.result_ofNumbers fn n ns h]

/-- The rows of an aggregator that has taken in some entries. -/
theorem rows_takeAll (h : a.fn.isReserved = false) (entries : List (Option Value × Int)) :
    Aggregator.rows { a with groups := takeAll a.fn [] entries } =
      if entries.isEmpty ∧ a.grouping.isNone ∧ a.fn = .count then
        (resultRow a.schema none 0).map fun row => [row]
      else (groupsOf entries).mapM fun (key, ns) => resultRow a.schema key (a.fn.over ns) := by
  have hempty : (takeAll a.fn [] entries).isEmpty = entries.isEmpty := by
    rw [takeAll_nil]
    cases entries with
    | nil => rfl
    | cons entry entries => rw [groupsOf_cons]; rfl
  have hresults := mapM_result h a.schema (groupsOf entries) fun group => ne_nil_of_mem_groupsOf
  rw [← takeAll_nil] at hresults
  rw [Aggregator.rows, if_neg (by simp [h])]
  simp only [hempty]
  exact congrArg (fun results => if entries.isEmpty ∧ a.grouping.isNone ∧ a.fn = .count then
    (resultRow a.schema none 0).map fun row => [row] else results) hresults

/-- An aggregator that has taken in rows one by one gives the rows that sum them up. -/
theorem rows_of_foldlM (hnew : a.groups = []) (rows : List Tuple) :
    rows.foldlM merge a >>= Aggregator.rows = a.summary rows := by
  cases h : a.fn.isReserved with
  | true =>
    rw [foldlM_merge_of_reserved h, summary, if_pos h]
    show a.rows = _
    rw [Aggregator.rows, if_pos h]
  | false =>
    rw [foldlM_merge h, summary, if_neg (by simp [h]), hnew]
    cases rows.mapM a.entry with
    | error cause => rfl
    | ok entries => exact rows_takeAll h entries

end Aggregator

end Rowstore
