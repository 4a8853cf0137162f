import Mathlib
import Rowstore.Proofs.Query.Merging

/-!
# Overflow

Which summaries of 32-bit numbers fail, and with what. The words of the tallies are wide enough for
2^32 numbers, `Tallies.Shows.run_isSome`. What is made of the numbers of a group need not fit an
integer column: an extreme value is one of the numbers and an average lies between them,
`AggregateFunction.fits_over`, but a sum or a count may be too large. The first group for which it
is ends the rows, with the exact number, `Aggregator.mapM_resultRow_eq_error_iff`. Together this is
`Tallies.rows_of_run`.
-/

namespace Rowstore

open Aggregator (Fits)

/-! ### What fits -/

namespace AggregateFunction

variable {fn : AggregateFunction} {ns : List Int}

/-- An average, cut off toward zero, lies between the bounds of the numbers. -/
theorem tdiv_mem_Icc {low high : Int} (hne : ns ≠ []) (h : ∀ n ∈ ns, low ≤ n ∧ n ≤ high) :
    low ≤ ns.sum.tdiv ns.length ∧ ns.sum.tdiv ns.length ≤ high := by
  have hpos : (0 : Int) < ns.length := by exact_mod_cast List.length_pos_of_ne_nil hne
  have hlow : ns.length • low ≤ ns.sum := List.card_nsmul_le_sum ns low fun n hn => (h n hn).1
  have hhigh : ns.sum ≤ ns.length • high := List.sum_le_card_nsmul ns high fun n hn => (h n hn).2
  rw [nsmul_eq_mul] at hlow hhigh
  constructor
  · exact Int.le_tdiv_of_mul_le hpos (by linarith)
  · -- the upper bound is the lower one of the opposite numbers
    have hneg : -high ≤ (-ns.sum).tdiv ns.length := Int.le_tdiv_of_mul_le hpos (by linarith)
    rw [Int.neg_tdiv] at hneg
    linarith

/-- Extreme values and averages of numbers that fit do so, too. -/
theorem fits_over (hfn : fn = .min ∨ fn = .max ∨ fn = .avg) (hne : ns ≠ [])
    (h : ∀ n ∈ ns, Fits n) : Fits (fn.over ns) := by
  rcases hfn with rfl | rfl | rfl
  · obtain ⟨m, hm⟩ := Option.isSome_iff_exists.1 (List.isSome_min?_of_ne_nil hne)
    rw [AggregateFunction.over, hm]
    exact h m (List.min?_mem hm)
  · obtain ⟨m, hm⟩ := Option.isSome_iff_exists.1 (List.isSome_max?_of_ne_nil hne)
    rw [AggregateFunction.over, hm]
    exact h m (List.max?_mem hm)
  · exact tdiv_mem_Icc hne h

end AggregateFunction

/-- The numbers of a group are numbers of the entries. -/
theorem exists_entry_of_mem_groupsOf {entries : List (Option Value × Int)}
    {group : Option Value × List Int} (h : group ∈ groupsOf entries) {n : Int} (hn : n ∈ group.2) :
    ∃ entry ∈ entries, entry.2 = n := by
  obtain ⟨key, -, rfl⟩ := List.mem_map.1 h
  obtain ⟨entry, hentry, rfl⟩ := List.mem_map.1 hn
  exact ⟨entry, List.mem_of_mem_filter hentry, rfl⟩

namespace Aggregator

variable {a : Aggregator} {rows : List Tuple} {schema : Schema}

/-- A column of numbers has entries that fit. -/
theorem fits_of_mem_taken (hinput : a.input = .int) {entry : Option Value × Int}
    (h : entry ∈ a.taken rows) : Fits entry.2 := by
  obtain ⟨row, -, hentry⟩ := List.mem_filterMap.1 h
  cases hrow : a.entry row with
  | error cause =>
    rw [hrow] at hentry
    cases hentry
  | ok taken =>
    rw [hrow] at hentry
    cases hentry
    obtain ⟨v, -, hv⟩ := bind_eq_ok_iff.1 hrow
    obtain ⟨n, hn, hkey⟩ := bind_eq_ok_iff.1 hv
    obtain ⟨key, -, hkey⟩ := bind_eq_ok_iff.1 hkey
    cases hkey
    rw [hinput] at hn
    cases v with
    | str s => cases hn
    | int m =>
      cases hn
      exact ⟨m.minValue_le_toInt, m.toInt_le⟩

/-! ### The first group that fails -/

theorem exists_resultRow_iff {key : Option Value} {n : Int} :
    (∃ row, resultRow schema key n = .ok row) ↔ Fits n := by
  have hrow := @resultRow_eq_ok_iff schema (key, n)
  exact ⟨fun ⟨_, h⟩ => (hrow.1 h).1, fun hfits => ⟨_, hrow.2 ⟨hfits, rfl⟩⟩⟩

theorem resultRow_eq_error_iff {key : Option Value} {n : Int} {cause : DbError} :
    resultRow schema key n = .error cause ↔ ¬ Fits n ∧ cause = .aggregateOverflow n := by
  unfold resultRow Fits
  split_ifs with hlarge
  · constructor
    · rintro ⟨⟩
      exact ⟨by omega, rfl⟩
    · rintro ⟨-, rfl⟩
      rfl
  · simp only [false_iff, not_and]
    intro hfits
    omega

/-- The results of the groups, unless no rows are counted without grouping. -/
theorem results_cases (h : a.fn.isReserved = false) (entries : List (Option Value × Int)) :
    a.results entries = (groupsOf entries).map (fun (key, ns) => (key, a.fn.over ns)) ∨
      entries = [] ∧ a.results entries = [(none, 0)] := by
  unfold results
  simp only [h, Bool.false_eq_true, if_false]
  split_ifs with hnone
  · exact .inr ⟨List.isEmpty_iff.1 hnone.1, rfl⟩
  · exact .inl rfl

/-- The rows fail with the exact result of the first group whose result does not fit. -/
theorem rows_absorb_eq_error_iff (hnew : a.groups = []) (h : a.fn.isReserved = false)
    (rows : List Tuple) (cause : DbError) :
    (rows.foldl absorb a).rows = .error cause ↔
      ∃ before group after, groupsOf (a.taken rows) = before ++ group :: after ∧
        (∀ earlier ∈ before, Fits (a.fn.over earlier.2)) ∧ ¬ Fits (a.fn.over group.2) ∧
        cause = .aggregateOverflow (a.fn.over group.2) := by
  rw [rows_absorb hnew]
  rcases results_cases h (a.taken rows) with hresults | ⟨hnone, hresults⟩
  · rw [hresults, List.mapM_map, mapM_eq_error_iff]
    simp only [Function.comp_apply, exists_resultRow_iff, resultRow_eq_error_iff]
  · rw [hresults, hnone]
    constructor
    · rintro ⟨⟩
    · rintro ⟨before, group, after, hgroups, -⟩
      cases before <;> cases hgroups

/-- There is a group whose result does not fit if there is a first one. -/
theorem exists_not_fits_iff {groups : List (Option Value × List Int)} (fn : AggregateFunction) :
    (∃ group ∈ groups, ¬ Fits (fn.over group.2)) ↔
      ∃ before group after, groups = before ++ group :: after ∧
        (∀ earlier ∈ before, Fits (fn.over earlier.2)) ∧ ¬ Fits (fn.over group.2) := by
  constructor
  · rintro ⟨group, hgroup, hlarge⟩
    have hfound : (groups.find? fun group => ¬ Fits (fn.over group.2)).isSome := by
      rw [List.find?_isSome]
      exact ⟨group, hgroup, decide_eq_true hlarge⟩
    obtain ⟨first, hfirst⟩ := Option.isSome_iff_exists.1 hfound
    obtain ⟨hlarge, before, after, rfl, hbefore⟩ := List.find?_eq_some_iff_append.1 hfirst
    exact ⟨before, first, after, rfl, by simpa using hbefore, of_decide_eq_true hlarge⟩
  · rintro ⟨before, group, after, rfl, -, hlarge⟩
    exact ⟨group, List.mem_append_right _ List.mem_cons_self, hlarge⟩

/-- A summary of a column of numbers by an extreme value or an average has rows. -/
theorem exists_rows_absorb (hnew : a.groups = []) (hinput : a.input = .int)
    (hfn : a.fn = .min ∨ a.fn = .max ∨ a.fn = .avg) : ∃ out, (rows.foldl absorb a).rows = .ok out := by
  have hreserved : a.fn.isReserved = false := by rcases hfn with h | h | h <;> rw [h] <;> rfl
  cases hrows : (rows.foldl absorb a).rows with
  | ok out => exact ⟨out, rfl⟩
  | error cause =>
    obtain ⟨before, group, after, hgroups, -, hlarge, -⟩ :=
      (rows_absorb_eq_error_iff hnew hreserved rows cause).1 hrows
    have hgroup : group ∈ groupsOf (a.taken rows) := by
      rw [hgroups]
      exact List.mem_append_right _ List.mem_cons_self
    refine absurd (AggregateFunction.fits_over hfn (ne_nil_of_mem_groupsOf hgroup) ?_) hlarge
    intro n hn
    obtain ⟨entry, hentry, rfl⟩ := exists_entry_of_mem_groupsOf hgroup hn
    exact fits_of_mem_taken hinput hentry

end Aggregator

namespace Tallies

variable {a : Aggregator} {grouping : Option Grouping} {column : Nat} {fn : AggregateFunction}
  {rows : List Tuple}

/-- **No word stops the tallies** of 2^32 numbers, and the first sum or count that does not fit an
integer column is reported. -/
theorem rows_of_run (hnew : Aggregator.new .int grouping column fn = .ok a)
    (hlength : (a.taken rows).length ≤ 2 ^ 32) :
    ∃ t answers u result,
      Tallies.new .int grouping column fn = .ok t ∧ t.run rows = some (answers, u) ∧
      answers = rows.map (fun row => (a.merge row).map fun _ => ()) ∧ u.rows = some result ∧
      (fn = .min ∨ fn = .max ∨ fn = .avg → ∃ out, result = .ok out) ∧
      (fn = .sum ∨ fn = .count →
        ((∃ cause, result = .error cause) ↔
          ∃ group ∈ groupsOf (a.taken rows), ¬ Fits (fn.over group.2)) ∧
        ∀ cause, result = .error cause ↔
          ∃ before group after, groupsOf (a.taken rows) = before ++ group :: after ∧
            (∀ earlier ∈ before, Fits (fn.over earlier.2)) ∧ ¬ Fits (fn.over group.2) ∧
            cause = .aggregateOverflow (fn.over group.2)) := by
  obtain ⟨t, ht, hshows⟩ := Tallies.shows_new hnew
  cases hnew
  obtain ⟨⟨answers, u⟩, hrun⟩ := Option.isSome_iff_exists.1 (hshows.run_isSome rfl hlength)
  obtain ⟨hanswers, hu⟩ := hshows.run hrun
  refine ⟨t, answers, u, _, ht, hrun, hanswers, hu.rows_eq, ?_, ?_⟩
  · exact Aggregator.exists_rows_absorb (a := ⟨.int, grouping, column, fn, []⟩) rfl rfl
  · intro hfn
    have hreserved : fn.isReserved = false := by rcases hfn with h | h <;> rw [h] <;> rfl
    have hcause := Aggregator.rows_absorb_eq_error_iff (a := ⟨.int, grouping, column, fn, []⟩) rfl
      hreserved rows
    refine ⟨?_, hcause⟩
    rw [Aggregator.exists_not_fits_iff]
    constructor
    · rintro ⟨cause, hfails⟩
      obtain ⟨before, group, after, hgroups, hbefore, hlarge, -⟩ := (hcause cause).1 hfails
      exact ⟨before, group, after, hgroups, hbefore, hlarge⟩
    · rintro ⟨before, group, after, hgroups, hbefore, hlarge⟩
      exact ⟨_, (hcause _).2 ⟨before, group, after, hgroups, hbefore, hlarge, rfl⟩⟩

/-- Sums for each name. Neither of the two fits, and the first name's is reported. -/
theorem sums_of_run :
    let pairs : Schema := .pair ⟨.str, none⟩ ⟨.int, none⟩
    let row : String → Int32 → Tuple := fun s n => .ofList pairs [.str s, .int n]
    let rows := [row "a" (-1), row "b" 2147483647, .unset pairs, row "a" (-2147483648),
      row "b" 2]
    ∃ a t answers u, Aggregator.new .int (some (0, .str)) 1 .sum = .ok a ∧
      (a.taken rows).length = 4 ∧
      Tallies.new .int (some (0, .str)) 1 .sum = .ok t ∧ t.run rows = some (answers, u) ∧
      answers = [.ok (), .ok (), .error (.fieldNotSet 1), .ok (), .ok ()] ∧
      u.rows = some (.error (.aggregateOverflow (-2147483649))) := by
  intro pairs row rows
  obtain ⟨a, ha⟩ : ∃ a, Aggregator.new .int (some (0, .str)) 1 .sum = .ok a := ⟨_, rfl⟩
  have hlength : (a.taken rows).length = 4 := by
    cases ha
    decide +kernel
  obtain ⟨t, answers, u, result, ht, hrun, hanswers, hrows, -, hfails⟩ :=
    rows_of_run ha (hlength.trans_le (by decide))
  refine ⟨a, t, answers, u, ha, hlength, ht, hrun, ?_, ?_⟩
  · rw [hanswers]
    cases ha
    decide +kernel
  · have hfirst := ((hfails (.inl rfl)).2 (.aggregateOverflow (-2147483649))).2
    rw [hrows, hfirst]
    cases ha
    exact ⟨[], (some (.str "a"), [-1, -2147483648]), [(some (.str "b"), [2147483647, 2])],
      by decide +kernel⟩

end Tallies

end Rowstore
