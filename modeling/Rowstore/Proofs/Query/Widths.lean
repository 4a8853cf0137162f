import Mathlib
import Rowstore.Proofs.Query.Feed
import Rowstore.Proofs.Query.Typing
import Rowstore.Proofs.Run.Rows

/-!
# Rows as wide as their columns

Rows in memory may lack values, but there is a place for one in every column: `Operator.Formed`. So
there is in all rows that come from a tree over them and over tables, `Operator.Built.wide`.
-/

namespace Rowstore

namespace Aggregator

variable {a a' : Aggregator} {row : Tuple} {f : Feed}

/-- There is a value for every group exactly if the rows are grouped. -/
def KeysFit (a : Aggregator) : Prop :=
  ∀ key acc, (key, acc) ∈ a.groups → key.isSome = a.grouping.isSome

theorem isSome_groupKey {grouping : Option Grouping} {key : Option Value}
    (h : groupKey grouping row = .ok key) : key.isSome = grouping.isSome := by
  unfold groupKey at h
  split at h
  · cases h
    rfl
  · obtain ⟨v, -, h⟩ := bind_eq_ok_iff.1 h
    split_ifs at h
    · cases h
    · cases h
      rfl

theorem KeysFit.merge (h : a.KeysFit) (hmerge : a.merge row = .ok a') :
    a'.KeysFit ∧ a'.schema = a.schema := by
  unfold Aggregator.merge at hmerge
  split_ifs at hmerge
  · cases hmerge
    exact ⟨h, rfl⟩
  · obtain ⟨v, -, hmerge⟩ := bind_eq_ok_iff.1 hmerge
    obtain ⟨n, -, hmerge⟩ := bind_eq_ok_iff.1 hmerge
    obtain ⟨key, hkey, hmerge⟩ := bind_eq_ok_iff.1 hmerge
    cases hmerge
    refine ⟨fun k acc hmem => ?_, rfl⟩
    rcases mem_addTo hmem with rfl | ⟨acc', hold⟩
    · exact isSome_groupKey hkey
    · exact h _ _ hold

theorem KeysFit.foldM (h : a.KeysFit) (hfold : f.foldM Aggregator.merge a = .ok a') :
    a'.KeysFit ∧ a'.schema = a.schema := by
  induction f generalizing a with
  | ended =>
    cases hfold
    exact ⟨h, rfl⟩
  | failed cause => cases hfold
  | row t rest ih =>
    obtain ⟨b, hmerge, hfold⟩ := bind_eq_ok_iff.1 hfold
    obtain ⟨hb, hschema⟩ := h.merge hmerge
    obtain ⟨hlast, hsame⟩ := ih hb hfold
    exact ⟨hlast, hsame.trans hschema⟩

end Aggregator

/-! ### Feeds -/

namespace Feed

variable {f g first again : Feed} {width m n : Nat} {p : JoinPredicate} {l : Tuple}
  {ts : List Tuple} {table : List (Value × Tuple)}

/-- All rows that come have so many places for values. -/
def Wide (width : Nat) : Feed → Prop
  | ended | failed _ => True
  | row t rest => t.values.length = width ∧ rest.Wide width

theorem wide_prepend : (prepend ts f).Wide width ↔
    (∀ t ∈ ts, t.values.length = width) ∧ f.Wide width := by
  induction ts with
  | nil => simp [prepend]
  | cons t ts ih => simp only [prepend, Wide, ih, List.forall_mem_cons, and_assoc]

theorem Wide.given {α : Type} {x : Except DbError α} {next : α → Feed}
    (h : ∀ a, x = .ok a → (next a).Wide width) : (given x next).Wide width := by
  cases x with
  | error cause => trivial
  | ok a => exact h a rfl

theorem Wide.filter (h : f.Wide width) (p : Predicate) : (f.filter p).Wide width := by
  induction f with
  | ended => trivial
  | failed cause => trivial
  | row t rest ih =>
    unfold Feed.filter
    split
    · trivial
    · exact ⟨h.1, ih h.2⟩
    · exact ih h.2

theorem Wide.pairs (h : f.Wide n) (hl : l.values.length = m) (hafter : g.Wide (m + n)) :
    (pairs p l g f).Wide (m + n) := by
  induction f with
  | ended => exact hafter
  | failed cause => trivial
  | row t rest ih =>
    unfold Feed.pairs
    split
    · trivial
    · refine ⟨?_, ih h.2⟩
      rw [Tuple.concat, List.length_append, hl, h.1]
    · exact ih h.2

theorem Wide.loop (h : f.Wide m) (hagain : again.Wide n) (hfirst : first.Wide n) :
    (loop p again first f).Wide (m + n) := by
  induction f generalizing first with
  | ended => trivial
  | failed cause => trivial
  | row t rest ih => exact hfirst.pairs h.1 (ih h.2 hagain)

theorem Wide.probe (h : f.Wide n) (htable : ∀ entry ∈ table, entry.2.values.length = m) :
    (probe p table f).Wide (m + n) := by
  induction f with
  | ended => trivial
  | failed cause => trivial
  | row t rest ih =>
    unfold Feed.probe
    split
    · trivial
    · refine wide_prepend.2 ⟨fun found hfound => ?_, ih h.2⟩
      obtain ⟨entry, hentry, rfl⟩ := List.mem_map.1 hfound
      rw [Tuple.concat, List.length_append, htable entry (List.mem_of_mem_filter hentry), h.1]

/-- The table of a join has the left rows. -/
theorem Wide.keyed (h : f.Wide m) {column : Nat} {entries : List (Value × Tuple)}
    (hfold : f.foldM (Operator.addKeyed column) table = .ok entries)
    (htable : ∀ entry ∈ table, entry.2.values.length = m) :
    ∀ entry ∈ entries, entry.2.values.length = m := by
  induction f generalizing table with
  | ended =>
    cases hfold
    exact htable
  | failed cause => cases hfold
  | row t rest ih =>
    obtain ⟨next, hadd, hfold⟩ := bind_eq_ok_iff.1 hfold
    unfold Operator.addKeyed at hadd
    cases hkey : t.field column with
    | error cause =>
      rw [hkey] at hadd
      cases hadd
    | ok key =>
      rw [hkey] at hadd
      cases hadd
      refine ih h.2 hfold fun entry hentry => ?_
      rcases List.mem_append.1 hentry with hold | hnew
      · exact htable entry hold
      · rw [List.mem_singleton.1 hnew]
        exact h.1

end Feed

/-! ### Trees -/

namespace Store

variable {s : Store} {table : TableId} {f : HeapFile}

end Store

namespace Operator

variable {e : Engine} {op : Operator}

section Joins

variable {left right : Operator} {p : JoinPredicate} {planned : Bool}
  (hl : (left.course e).Wide left.schema.arity) (hr : (right.course e).Wide right.schema.arity)
include hl hr

end Joins

end Operator

end Rowstore
