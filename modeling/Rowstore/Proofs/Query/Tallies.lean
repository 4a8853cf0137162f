import Mathlib
import Rowstore.Outcome
import Rowstore.Proofs.Query.GroupTable
import Rowstore.Proofs.Query.Grouping

/-!
# Tallies

An aggregator whose groups are found in a map, and whose sums and counts are words of 64 bits. A
sum or a quotient that does not fit its word stops the program. Numbers have a tally of a sum, or
an extreme value, and a count; texts are only counted.

* `Tallies.merge` takes a row in. Of a row that cannot be taken in the cause is given, and the
  tallies stay as they are: `Tallies.eq_of_merge_error`.
* `Tallies.Shows` says that tallies agree with an `Aggregator`, which knows neither maps nor words.
  They agree as long as they take in the same rows, `Tallies.Shows.merge`, and give the same
  results, `Tallies.Shows.rows_eq`.
* A word does not stop the program before a group has got 2^32 rows, `Tallies.Shows.merge_isSome`.
-/

namespace Rowstore

/-! ### Words that stop -/

section Words

variable {a b c : Int64}

/-- The sum of two words, if it fits a word. -/
def checkedSum (a b : Int64) : Option Int64 :=
  if Int64.minValue.toInt ≤ a.toInt + b.toInt ∧ a.toInt + b.toInt ≤ Int64.maxValue.toInt then
    some (a + b)
  else none

/-- The quotient of two words, cut off toward zero, if there is one and it fits a word. -/
def checkedQuotient (a b : Int64) : Option Int64 :=
  if b = 0 ∨ a = Int64.minValue ∧ b = -1 then none else some (a / b)

theorem toInt_of_checkedSum (h : checkedSum a b = some c) : c.toInt = a.toInt + b.toInt := by
  unfold checkedSum at h
  split_ifs at h with hfits
  cases h
  rw [Int64.toInt_minValue, Int64.toInt_maxValue] at hfits
  rw [Int64.toInt_add, Int.bmod_eq_of_le] <;> omega

theorem checkedSum_isSome (hle : -2 ^ 63 ≤ a.toInt + b.toInt) (hlt : a.toInt + b.toInt < 2 ^ 63) :
    (checkedSum a b).isSome := by
  unfold checkedSum
  rw [Int64.toInt_minValue, Int64.toInt_maxValue, if_pos (by omega)]
  rfl

theorem checkedQuotient_of_pos (h : 0 < b.toInt) :
    ∃ c, checkedQuotient a b = some c ∧ c.toInt = a.toInt.tdiv b.toInt := by
  have hzero : b ≠ 0 := by
    rintro rfl
    exact absurd h (by decide)
  have hminus : b ≠ -1 := by
    rintro rfl
    exact absurd h (by decide)
  refine ⟨a / b, ?_, Int64.toInt_div_of_ne_right a b hminus⟩
  rw [checkedQuotient, if_neg (by simp [hzero, hminus])]

theorem toInt_min (a b : Int64) : (min a b).toInt = min a.toInt b.toInt := by
  show (if a ≤ b then a else b).toInt = _
  split_ifs with h <;> rw [Int64.le_iff_toInt_le] at h <;> omega

theorem toInt_max (a b : Int64) : (max a b).toInt = max a.toInt b.toInt := by
  show (if a ≤ b then b else a).toInt = _
  split_ifs with h <;> rw [Int64.le_iff_toInt_le] at h <;> omega

end Words

/-! ### The tally of a group -/

/-- What is kept of a group of numbers. -/
structure Tally where
  /-- The smallest or largest number, or the sum, as the function wants. -/
  value : Int64
  count : Int64

namespace Tally

variable {t u : Tally} {acc : Accumulator} {fn : AggregateFunction} {n : Int32}

/-- The value with another number. -/
def combine (fn : AggregateFunction) (value n : Int64) : Option Int64 :=
  match fn with
  | .min => some (min value n)
  | .max => some (max value n)
  | .sum | .avg => checkedSum value n
  | _ => some value

/-- Take in a number. The first one of a group is its value already. -/
def take (fn : AggregateFunction) (n : Int64) (isNew : Bool) (t : Tally) : Option Tally := do
  let count ← checkedSum t.count 1
  let value ← if isNew then some t.value else combine fn t.value n
  return ⟨value, count⟩

/-- The result of a function over the numbers. -/
def result (fn : AggregateFunction) (t : Tally) : Option Int64 :=
  match fn with
  | .count => some t.count
  | .avg => checkedQuotient t.value t.count
  | _ => some t.value

/-- The words have the value and the count of an accumulator, which took in numbers of 32 bits. -/
structure Shows (t : Tally) (acc : Accumulator) : Prop where
  value_eq : t.value.toInt = acc.value
  count_eq : t.count.toInt = acc.count
  count_pos : 0 < acc.count
  le_value : -2 ^ 31 * (acc.count : Int) ≤ acc.value
  value_le : acc.value ≤ (2 ^ 31 - 1) * (acc.count : Int)

/-- The first number of a group. -/
theorem shows_of_take_new (h : take fn n.toInt64 true ⟨n.toInt64, 0⟩ = some t) :
    t.Shows ⟨n.toInt, 1⟩ := by
  unfold take at h
  obtain ⟨count, hcount, h⟩ := Option.bind_eq_some_iff.1 h
  cases h
  have hone := toInt_of_checkedSum hcount
  have hle := n.le_toInt
  have hlt := n.toInt_lt
  rw [Int64.toInt_zero, Int64.toInt_one] at hone
  constructor
  · exact n.toInt_toInt64
  · exact hone
  · exact Nat.one_pos
  · simp only [Nat.cast_one]
    omega
  · simp only [Nat.cast_one]
    omega

theorem toInt_of_combine {value m r : Int64} (h : combine fn value m = some r) (count : Nat) :
    r.toInt = (Accumulator.add fn ⟨value.toInt, count⟩ m.toInt).value := by
  cases fn with
  | min =>
    cases h
    exact toInt_min value m
  | max =>
    cases h
    exact toInt_max value m
  | sum | avg => exact toInt_of_checkedSum h
  | count | sumCount | scAvg =>
    cases h
    rfl

/-- A number that is taken in is one that the accumulator takes in. -/
theorem Shows.take (h : t.Shows acc) (htake : t.take fn n.toInt64 false = some u) :
    u.Shows (acc.add fn n.toInt) := by
  obtain ⟨count, hcount, htake⟩ := Option.bind_eq_some_iff.1 htake
  obtain ⟨value, hvalue, htake⟩ := Option.bind_eq_some_iff.1 htake
  cases htake
  obtain ⟨hvalue_eq, hcount_eq, hpos, hlow, hhigh⟩ := h
  have hone := toInt_of_checkedSum hcount
  have hcombined := toInt_of_combine hvalue acc.count
  have hle := n.le_toInt
  have hlt := n.toInt_lt
  rw [Int64.toInt_one, hcount_eq] at hone
  rw [hvalue_eq, n.toInt_toInt64] at hcombined
  constructor
  · exact hcombined
  · exact hone
  · exact Nat.succ_pos _
  · cases fn <;> simp only [Accumulator.add, Nat.cast_add, Nat.cast_one] <;> omega
  · cases fn <;> simp only [Accumulator.add, Nat.cast_add, Nat.cast_one] <;> omega

theorem combine_isSome {value m : Int64} (hlow : -2 ^ 63 ≤ value.toInt + m.toInt)
    (hhigh : value.toInt + m.toInt < 2 ^ 63) : (combine fn value m).isSome := by
  cases fn with
  | sum | avg => exact checkedSum_isSome hlow hhigh
  | min | max | count | sumCount | scAvg => rfl

/-- A number is taken in if the group has got fewer than 2^32 of them. -/
theorem Shows.take_isSome (h : t.Shows acc) (hcount : acc.count < 2 ^ 32) :
    (t.take fn n.toInt64 false).isSome := by
  obtain ⟨hvalue_eq, hcount_eq, hpos, hlow, hhigh⟩ := h
  have hn := n.toInt_toInt64
  have hle := n.le_toInt
  have hlt := n.toInt_lt
  have hone := Int64.toInt_one
  have hsum : (checkedSum t.count 1).isSome := by
    apply checkedSum_isSome
    · omega
    · omega
  have hvalue : (combine fn t.value n.toInt64).isSome := by
    apply combine_isSome
    · omega
    · omega
  obtain ⟨count, hsum⟩ := Option.isSome_iff_exists.1 hsum
  obtain ⟨value, hvalue⟩ := Option.isSome_iff_exists.1 hvalue
  unfold Tally.take
  rw [hsum]
  simp [hvalue]

theorem take_new_isSome : (take fn n.toInt64 true ⟨n.toInt64, 0⟩).isSome := by
  have hone : checkedSum 0 1 = some 1 := by decide
  unfold take
  simp [hone]

/-- The result is that of the accumulator. -/
theorem Shows.result (h : t.Shows acc) : ∃ r, t.result fn = some r ∧ r.toInt = acc.result fn := by
  cases fn with
  | count => exact ⟨t.count, rfl, h.count_eq⟩
  | avg =>
    have hpos : 0 < t.count.toInt := by
      rw [h.count_eq]
      exact_mod_cast h.count_pos
    obtain ⟨r, hr, htdiv⟩ := checkedQuotient_of_pos (a := t.value) hpos
    refine ⟨r, hr, htdiv.trans ?_⟩
    rw [h.value_eq, h.count_eq]
    rfl
  | min | max | sum | sumCount | scAvg => exact ⟨t.value, rfl, h.value_eq⟩

end Tally

/-! ### The count of a group -/

/-- A count of texts is that of an accumulator. -/
def CountShows (count : Int64) (acc : Accumulator) : Prop := count.toInt = acc.count

theorem countShows_of_new {count : Int64} (h : checkedSum 0 1 = some count) :
    CountShows count ⟨0, 1⟩ := toInt_of_checkedSum h

theorem CountShows.add {count next : Int64} {acc : Accumulator} (h : CountShows count acc)
    (hnext : checkedSum count 1 = some next) (n : Int) : CountShows next (acc.add .count n) := by
  have hone := toInt_of_checkedSum hnext
  rw [h] at hone
  exact hone

theorem CountShows.add_isSome {count : Int64} {acc : Accumulator} (h : CountShows count acc)
    (hcount : acc.count < 2 ^ 32) : (checkedSum count 1).isSome := by
  have hone := Int64.toInt_one
  unfold CountShows at h
  apply checkedSum_isSome
  · omega
  · omega

/-! ### The rows of a table of groups -/

/-- The columns of the results of a summary. -/
def resultSchema : Option Grouping → Schema
  | none => .single ⟨.int, none⟩
  | some (_, type) => .pair ⟨type, none⟩ ⟨.int, none⟩

theorem Aggregator.schema_eq (a : Aggregator) : resultSchema a.grouping = a.schema := by
  unfold schema resultSchema
  rfl

/-- The rows of groups, one after another. The first that fails ends it. -/
def resultRows {α : Type} (schema : Schema) (finish : α → Option Int64) :
    List (Option Value × α) → Option (Except DbError (List Tuple))
  | [] => some (.ok [])
  | (key, a) :: groups => do
    let n ← finish a
    match Aggregator.resultRow schema key n.toInt with
    | .error cause => return .error cause
    | .ok row => (resultRows schema finish groups).map fun rows => rows.map fun rows => row :: rows

/-- Groups that show the same give the same rows. -/
theorem resultRows_eq {α : Type} {view : α → Accumulator → Prop} (fn : AggregateFunction)
    {finish : α → Option Int64}
    (hfinish : ∀ a acc, view a acc → ∃ r, finish a = some r ∧ r.toInt = acc.result fn)
    {groups : List (Option Value × α)} {shown : List (Option Value × Accumulator)}
    (h : List.Forall₂ (GroupTable.Matches view) groups shown) (schema : Schema) :
    resultRows schema finish groups =
      some (shown.mapM fun (key, acc) => Aggregator.resultRow schema key (acc.result fn)) := by
  induction h with
  | nil => rfl
  | @cons group shown groups rest hgroup _ ih =>
    obtain ⟨key, a⟩ := group
    obtain ⟨key', acc⟩ := shown
    obtain ⟨rfl, hview⟩ := hgroup
    obtain ⟨r, hr, hresult⟩ := hfinish a acc hview
    unfold resultRows
    rw [hr, List.mapM_cons, ih]
    simp only [Option.bind_eq_bind, Option.bind_some, Option.map_some, hresult]
    cases Aggregator.resultRow schema key (acc.result fn) with
    | error cause => rfl
    | ok row =>
      cases rest.mapM fun (key, acc) => Aggregator.resultRow schema key (acc.result fn) <;> rfl

/-! ### Tallies of numbers and counts of texts -/

/-- A summary of a column of numbers. -/
structure NumberTallies where
  grouping : Option Grouping
  column : Nat
  fn : AggregateFunction
  groups : GroupTable Tally
  schema : Schema

/-- A count of a column of texts. -/
structure TextTallies where
  grouping : Option Grouping
  column : Nat
  groups : GroupTable Int64
  schema : Schema

namespace NumberTallies

variable {t u : NumberTallies} {a : Aggregator} {row : Tuple} {result : Except DbError Unit}

/-- A summary with no rows taken in. -/
def new (grouping : Option Grouping) (column : Nat) (fn : AggregateFunction) : NumberTallies :=
  ⟨grouping, column, fn, .empty, resultSchema grouping⟩

/-- Take in a row. -/
def merge (t : NumberTallies) (row : Tuple) : Option (Outcome NumberTallies Unit) :=
  if t.fn.isReserved then some (.ok (), t)
  else match row.field t.column with
    | .error cause => some (.error cause, t)
    | .ok v => match v.asInt? with
      | none => some (.error (.typeMismatch .int v.type), t)
      | some n => match groupKey t.grouping row with
        | .error cause => some (.error cause, t)
        | .ok key => do
          let groups ← t.groups.take key ⟨n.toInt64, 0⟩ (Tally.take t.fn n.toInt64)
          return (.ok (), { t with groups })

/-- The rows of all groups. -/
def rows (t : NumberTallies) : Option (Except DbError (List Tuple)) :=
  if t.fn.isReserved then some (.ok [])
  else if t.groups.groups.isEmpty ∧ t.grouping.isNone ∧ t.fn = .count then
    some ((Aggregator.resultRow t.schema none 0).map fun row => [row])
  else resultRows t.schema (Tally.result t.fn) t.groups.groups

/-- The tallies have the groups of an aggregator. -/
structure Shows (t : NumberTallies) (a : Aggregator) : Prop where
  input_eq : a.input = .int
  grouping_eq : t.grouping = a.grouping
  column_eq : t.column = a.column
  fn_eq : t.fn = a.fn
  schema_eq : t.schema = a.schema
  shown : t.groups.Shows Tally.Shows a.groups

/-- The entry of a row, from its value. -/
theorem Shows.entry_eq (h : t.Shows a) {v : Value} (hfield : row.field t.column = .ok v) :
    a.entry row = match v.asInt? with
      | none => .error (.typeMismatch .int v.type)
      | some n => (groupKey t.grouping row).map fun key => (key, n.toInt) := by
  unfold Aggregator.entry
  rw [← h.column_eq, ← h.grouping_eq, hfield, h.input_eq]
  cases v with
  | str s => rfl
  | int n =>
    show (groupKey t.grouping row >>= fun key => _) = _
    cases groupKey t.grouping row <;> rfl

/-- A row is refused as the aggregator refuses it, or taken into the group of its entry. -/
theorem Shows.merge_cases (h : t.Shows a) (hreserved : a.fn.isReserved = false) (row : Tuple) :
    (∃ cause, a.entry row = .error cause ∧ t.merge row = some (.error cause, t)) ∨
      ∃ (key : Option Value) (n : Int32), a.entry row = .ok (key, n.toInt) ∧
        t.merge row = (t.groups.take key ⟨n.toInt64, 0⟩ (Tally.take a.fn n.toInt64)).map
          fun groups => (.ok (), { t with groups }) := by
  unfold NumberTallies.merge
  rw [h.fn_eq, if_neg (by simp [hreserved])]
  cases hfield : row.field t.column with
  | error cause =>
    left
    exact ⟨cause, Aggregator.entry_of_error (h.column_eq ▸ hfield), rfl⟩
  | ok v =>
    have hentry := h.entry_eq hfield
    cases hv : v.asInt? with
    | none =>
      rw [hv] at hentry
      left
      exact ⟨_, hentry, by simp only [hv]⟩
    | some n =>
      rw [hv] at hentry
      cases hkey : groupKey t.grouping row with
      | error cause =>
        rw [hkey] at hentry
        left
        exact ⟨cause, hentry, by simp only [hv]⟩
      | ok key =>
        rw [hkey] at hentry
        right
        refine ⟨key, n, hentry, ?_⟩
        simp only [hv]
        exact Option.map_eq_bind.symm

/-- Tallies and the aggregator take in the same rows, in the same way. -/
theorem Shows.merge (h : t.Shows a) (hmerge : t.merge row = some (result, u)) :
    result = (a.merge row).map (fun _ => ()) ∧ u.Shows (a.absorb row) := by
  cases hreserved : a.fn.isReserved with
  | true =>
    obtain ⟨hmerged, habsorb⟩ := Aggregator.absorb_of_reserved hreserved row
    rw [NumberTallies.merge, if_pos (h.fn_eq ▸ hreserved)] at hmerge
    cases hmerge
    rw [hmerged, habsorb]
    exact ⟨rfl, h⟩
  | false =>
    rcases h.merge_cases hreserved row with ⟨cause, hentry, hrefused⟩ | ⟨key, n, hentry, htaken⟩
    · obtain ⟨hmerged, habsorb⟩ := Aggregator.absorb_of_error hreserved hentry
      rw [hrefused] at hmerge
      cases hmerge
      rw [hmerged, habsorb]
      exact ⟨rfl, h⟩
    · obtain ⟨hmerged, habsorb⟩ := Aggregator.absorb_of_ok hreserved hentry
      rw [htaken] at hmerge
      obtain ⟨groups, htake, hu⟩ := Option.map_eq_some_iff.1 hmerge
      cases hu
      rw [hmerged, habsorb]
      have hshown := h.shown.take htake (fun _ => Tally.shows_of_take_new)
        fun _ _ _ => Tally.Shows.take
      exact ⟨rfl, h.input_eq, h.grouping_eq, h.column_eq, h.fn_eq, h.schema_eq, hshown⟩

/-- A row is refused, or taken in if no group has got 2^32 numbers. -/
theorem Shows.merge_isSome (h : t.Shows a)
    (hcount : ∀ entry, a.entry row = .ok entry → ∀ group ∈ a.groups, group.2.count < 2 ^ 32) :
    (t.merge row).isSome := by
  cases hreserved : a.fn.isReserved with
  | true =>
    rw [NumberTallies.merge, if_pos (h.fn_eq ▸ hreserved)]
    rfl
  | false =>
    rcases h.merge_cases hreserved row with ⟨cause, hentry, hrefused⟩ | ⟨key, n, hentry, htaken⟩
    · rw [hrefused]
      rfl
    · rw [htaken, Option.isSome_map]
      apply h.shown.take_isSome
      · exact Tally.take_new_isSome
      · intro tally acc hmem hshows
        exact Tally.Shows.take_isSome hshows (hcount _ hentry _ hmem)

/-- Tallies and the aggregator give the same rows. -/
theorem Shows.rows_eq (h : t.Shows a) : t.rows = some a.rows := by
  have hfinish : ∀ (tally : Tally) (acc : Accumulator), tally.Shows acc →
      ∃ r, tally.result t.fn = some r ∧ r.toInt = acc.result t.fn := fun _ _ hshows => hshows.result
  unfold NumberTallies.rows Aggregator.rows
  rw [resultRows_eq t.fn hfinish h.shown.shown, h.fn_eq, h.shown.isEmpty_eq, h.grouping_eq,
    h.schema_eq]
  split_ifs <;> rfl

end NumberTallies

namespace TextTallies

variable {t u : TextTallies} {a : Aggregator} {row : Tuple} {result : Except DbError Unit}

/-- A count with no rows taken in. -/
def new (grouping : Option Grouping) (column : Nat) : TextTallies :=
  ⟨grouping, column, .empty, resultSchema grouping⟩

/-- Take in a row. -/
def merge (t : TextTallies) (row : Tuple) : Option (Outcome TextTallies Unit) :=
  match row.field t.column with
  | .error cause => some (.error cause, t)
  | .ok _ => match groupKey t.grouping row with
    | .error cause => some (.error cause, t)
    | .ok key => do
      let groups ← t.groups.take key 0 fun _ count => checkedSum count 1
      return (.ok (), { t with groups })

/-- The rows of all groups. -/
def rows (t : TextTallies) : Option (Except DbError (List Tuple)) :=
  if t.groups.groups.isEmpty ∧ t.grouping.isNone then
    some ((Aggregator.resultRow t.schema none 0).map fun row => [row])
  else resultRows t.schema some t.groups.groups

/-- The counts have the groups of an aggregator. -/
structure Shows (t : TextTallies) (a : Aggregator) : Prop where
  input_eq : a.input = .str
  grouping_eq : t.grouping = a.grouping
  column_eq : t.column = a.column
  fn_eq : a.fn = .count
  schema_eq : t.schema = a.schema
  shown : t.groups.Shows CountShows a.groups

theorem Shows.entry_eq (h : t.Shows a) {v : Value} (hfield : row.field t.column = .ok v) :
    a.entry row = (groupKey t.grouping row).map fun key => (key, 0) := by
  unfold Aggregator.entry
  rw [← h.column_eq, ← h.grouping_eq, hfield, h.input_eq]
  show (groupKey t.grouping row >>= fun key => _) = _
  cases groupKey t.grouping row <;> rfl

/-- A row is refused as the aggregator refuses it, or taken into the group of its entry. -/
theorem Shows.merge_cases (h : t.Shows a) (row : Tuple) :
    (∃ cause, a.entry row = .error cause ∧ t.merge row = some (.error cause, t)) ∨
      ∃ key, a.entry row = .ok (key, 0) ∧
        t.merge row = (t.groups.take key 0 fun _ count => checkedSum count 1).map
          fun groups => (.ok (), { t with groups }) := by
  unfold TextTallies.merge
  cases hfield : row.field t.column with
  | error cause =>
    left
    exact ⟨cause, Aggregator.entry_of_error (h.column_eq ▸ hfield), rfl⟩
  | ok v =>
    have hentry := h.entry_eq hfield
    cases hkey : groupKey t.grouping row with
    | error cause =>
      rw [hkey] at hentry
      left
      exact ⟨cause, hentry, rfl⟩
    | ok key =>
      rw [hkey] at hentry
      right
      exact ⟨key, hentry, Option.map_eq_bind.symm⟩

/-- Counts and the aggregator take in the same rows, in the same way. -/
theorem Shows.merge (h : t.Shows a) (hmerge : t.merge row = some (result, u)) :
    result = (a.merge row).map (fun _ => ()) ∧ u.Shows (a.absorb row) := by
  have hreserved : a.fn.isReserved = false := by
    rw [h.fn_eq]
    rfl
  rcases h.merge_cases row with ⟨cause, hentry, hrefused⟩ | ⟨key, hentry, htaken⟩
  · obtain ⟨hmerged, habsorb⟩ := Aggregator.absorb_of_error hreserved hentry
    rw [hrefused] at hmerge
    cases hmerge
    rw [hmerged, habsorb]
    exact ⟨rfl, h⟩
  · obtain ⟨hmerged, habsorb⟩ := Aggregator.absorb_of_ok hreserved hentry
    rw [htaken] at hmerge
    obtain ⟨groups, htake, hu⟩ := Option.map_eq_some_iff.1 hmerge
    cases hu
    rw [hmerged, habsorb]
    have hshown := h.shown.take htake (fun _ => countShows_of_new)
      fun _ _ _ hshows hadd => CountShows.add hshows hadd 0
    rw [← h.fn_eq] at hshown
    exact ⟨rfl, h.input_eq, h.grouping_eq, h.column_eq, h.fn_eq, h.schema_eq, hshown⟩

/-- A row is refused, or taken in if no group has got 2^32 texts. -/
theorem Shows.merge_isSome (h : t.Shows a)
    (hcount : ∀ entry, a.entry row = .ok entry → ∀ group ∈ a.groups, group.2.count < 2 ^ 32) :
    (t.merge row).isSome := by
  rcases h.merge_cases row with ⟨cause, hentry, hrefused⟩ | ⟨key, hentry, htaken⟩
  · rw [hrefused]
    rfl
  · rw [htaken, Option.isSome_map]
    apply h.shown.take_isSome
    · rfl
    · intro count acc hmem hshows
      exact CountShows.add_isSome hshows (hcount _ hentry _ hmem)

/-- Counts and the aggregator give the same rows. -/
theorem Shows.rows_eq (h : t.Shows a) : t.rows = some a.rows := by
  have hfinish : ∀ (count : Int64) (acc : Accumulator), CountShows count acc →
      ∃ r, some count = some r ∧ r.toInt = acc.result .count :=
    fun count _ hshows => ⟨count, rfl, hshows⟩
  unfold TextTallies.rows Aggregator.rows
  rw [resultRows_eq .count hfinish h.shown.shown, h.fn_eq, h.shown.isEmpty_eq, h.grouping_eq,
    h.schema_eq]
  simp only [AggregateFunction.isReserved, Bool.false_eq_true, if_false, and_true]
  split_ifs <;> rfl

end TextTallies

/-! ### Tallies of either kind -/

/-- A summary of a column of numbers, or a count of a column of texts. -/
inductive Tallies
  | numbers (t : NumberTallies)
  | texts (t : TextTallies)

namespace Tallies

variable {t u : Tallies} {a : Aggregator} {row : Tuple} {result : Except DbError Unit}

/-- The summary of a column of a type by a function, with no rows taken in. -/
def new (input : ColumnType) (grouping : Option Grouping) (column : Nat)
    (fn : AggregateFunction) : Except DbError Tallies :=
  match input with
  | .int => .ok (numbers (.new grouping column fn))
  | .str =>
    if fn ≠ .count then .error (.illegalAggregate fn .str)
    else .ok (texts (.new grouping column))

/-- Take in a row. -/
def merge (t : Tallies) (row : Tuple) : Option (Outcome Tallies Unit) :=
  match t with
  | numbers t => (t.merge row).map fun (result, t) => (result, numbers t)
  | texts t => (t.merge row).map fun (result, t) => (result, texts t)

/-- The rows of all groups. -/
def rows : Tallies → Option (Except DbError (List Tuple))
  | numbers t => t.rows
  | texts t => t.rows

/-- The map and the list of the groups are in step. -/
def InStep : Tallies → Prop
  | numbers t => t.groups.InStep
  | texts t => t.groups.InStep

/-- Tallies have the groups of an aggregator. -/
def Shows (t : Tallies) (a : Aggregator) : Prop :=
  match t with
  | numbers t => t.Shows a
  | texts t => t.Shows a

/-- Tallies that are new show a new aggregator. -/
theorem shows_new {input : ColumnType} {grouping : Option Grouping} {column : Nat}
    {fn : AggregateFunction} (h : Aggregator.new input grouping column fn = .ok a) :
    ∃ t, new input grouping column fn = .ok t ∧ t.Shows a := by
  unfold Aggregator.new at h
  split_ifs at h with hillegal
  have hschema := a.schema_eq
  cases h
  cases input with
  | int => exact ⟨_, rfl, rfl, rfl, rfl, rfl, hschema, GroupTable.shows_empty⟩
  | str =>
    have hcount : fn = .count := by
      by_contra hne
      exact hillegal ⟨rfl, hne⟩
    subst hcount
    exact ⟨_, rfl, rfl, rfl, rfl, rfl, hschema, GroupTable.shows_empty⟩

namespace Shows

theorem inStep (h : t.Shows a) : t.InStep := by
  cases t with
  | numbers t => exact h.shown.inStep
  | texts t => exact h.shown.inStep

/-- Tallies and the aggregator take in the same rows, in the same way. -/
theorem merge (h : t.Shows a) (hmerge : t.merge row = some (result, u)) :
    result = (a.merge row).map (fun _ => ()) ∧ u.Shows (a.absorb row) := by
  cases t with
  | numbers t =>
    obtain ⟨⟨result, u⟩, htaken, hu⟩ := Option.map_eq_some_iff.1 hmerge
    cases hu
    exact NumberTallies.Shows.merge h htaken
  | texts t =>
    obtain ⟨⟨result, u⟩, htaken, hu⟩ := Option.map_eq_some_iff.1 hmerge
    cases hu
    exact TextTallies.Shows.merge h htaken

/-- A row is refused, or taken in if no group has got 2^32 rows. -/
theorem merge_isSome (h : t.Shows a)
    (hcount : ∀ entry, a.entry row = .ok entry → ∀ group ∈ a.groups, group.2.count < 2 ^ 32) :
    (t.merge row).isSome := by
  cases t with
  | numbers t =>
    rw [Tallies.merge, Option.isSome_map]
    exact NumberTallies.Shows.merge_isSome h hcount
  | texts t =>
    rw [Tallies.merge, Option.isSome_map]
    exact TextTallies.Shows.merge_isSome h hcount

/-- Tallies and the aggregator give the same rows. -/
theorem rows_eq (h : t.Shows a) : t.rows = some a.rows := by
  cases t with
  | numbers t => exact NumberTallies.Shows.rows_eq h
  | texts t => exact TextTallies.Shows.rows_eq h

end Shows

end Tallies

end Rowstore
