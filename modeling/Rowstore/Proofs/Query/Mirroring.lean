import Mathlib
import Rowstore.Proofs.Query.Strategies

/-!
# Joins the other way round

A join can be turned round: the children change places, and the comparison is replaced by the one
that holds of two values when the first holds of them in the other order. Then the same pairs match,
whichever way either of the two joins finds them, and every row has its halves exchanged, if the
left rows are all as wide as each other: `Operator.joins_mirrored`. Neither join fails if the
children do not.

* `Comparison.mirror` is the comparison the other way round. `LIKE` has none, since a string may
  occur in another that does not occur in it.
* `JoinPredicate.pairs` are the pairs of rows that match. Turned round they are the same pairs:
  `JoinPredicate.pairs_mirror`.
* `Operator.Joins` are the operators that join by a predicate, each in its way. What any of them
  gives is made of the pairs: `Operator.Joins.perm`.
-/

namespace Rowstore

/-! ### Comparisons -/

namespace Comparison

/-- The comparison that holds of `b` and `a` when this one holds of `a` and `b`. -/
def mirror : Comparison → Comparison
  | greater => less
  | greaterEq => lessEq
  | less => greater
  | lessEq => greaterEq
  | op => op

theorem accepts_mirror (op : Comparison) (o : Ordering) :
    op.mirror.accepts o.swap = op.accepts o := by
  cases op <;> cases o <;> rfl

theorem mirror_eq_like {op : Comparison} : op.mirror = .like ↔ op = .like := by
  cases op <;> decide

end Comparison

/-- Values that are compared in the other order. -/
theorem Value.satisfies_mirror {op : Comparison} (h : op ≠ .like) (a b : Value) :
    b.satisfies op.mirror a = a.satisfies op b := by
  cases a with
  | int m =>
    cases b with
    | int n =>
      have hswap : compare n.toInt m.toInt = (compare m.toInt n.toInt).swap :=
        Std.OrientedOrd.eq_swap
      show op.mirror.accepts (compare n.toInt m.toInt) = op.accepts (compare m.toInt n.toInt)
      rw [hswap, Comparison.accepts_mirror]
    | str t => rfl
  | str s =>
    cases b with
    | int n => rfl
    | str t =>
      have hswap : compare t s = (compare s t).swap := Std.OrientedOrd.eq_swap
      simp only [satisfies, h, Comparison.mirror_eq_like, if_false]
      rw [hswap, Comparison.accepts_mirror]

/-- `LIKE` depends on the order. -/
example : (Value.str "row").satisfies .like (.str "o") = true ∧
    (Value.str "o").satisfies .like (.str "row") = false := by decide +kernel

/-! ### Pairs of rows -/

namespace JoinPredicate

variable {p : JoinPredicate}

/-- The predicate on a right row and a left one. -/
def mirror (p : JoinPredicate) : JoinPredicate := ⟨p.right, p.op.mirror, p.left⟩

theorem accepts_mirror (h : p.op ≠ .like) (l r : Tuple) :
    p.mirror.accepts r l = p.accepts l r := by
  unfold accepts holds mirror
  cases hl : l.field p.left with
  | error cause =>
    cases hr : r.field p.right with
    | error cause' => rfl
    | ok b => rfl
  | ok a =>
    cases hr : r.field p.right with
    | error cause => rfl
    | ok b =>
      exact Value.satisfies_mirror h a b

/-- Turned round, the same pairs match. -/
theorem pairs_mirror (h : p.op ≠ .like) (ls rs : List Tuple) :
    (p.mirror.pairs rs ls).Perm ((p.pairs ls rs).map Prod.swap) := by
  have hproduct : (rs ×ˢ ls).Perm ((ls ×ˢ rs).map Prod.swap) := by
    have hright : rs ×ˢ ls = rs.flatMap fun r => ls.flatMap fun l => [(r, l)] := by
      simp only [← List.map_eq_flatMap]
      rfl
    have hleft : (ls ×ˢ rs).map Prod.swap = ls.flatMap fun l => rs.flatMap fun r => [(r, l)] := by
      rw [show ls ×ˢ rs = ls.flatMap fun l => rs.map (Prod.mk l) from rfl, List.map_flatMap]
      simp only [← List.map_eq_flatMap, List.map_map]
      rfl
    rw [hright, hleft]
    exact flatMap_swap (fun r l => [(r, l)]) rs ls
  have hsame : (ls ×ˢ rs).filter (fun pair => p.accepts pair.1 pair.2) =
      (ls ×ˢ rs).filter ((fun pair => p.mirror.accepts pair.1 pair.2) ∘ Prod.swap) := by
    refine List.filter_congr fun pair _ => ?_
    exact (accepts_mirror h pair.1 pair.2).symm
  rw [pairs, pairs, hsame, ← List.filter_map]
  exact hproduct.filter _

end JoinPredicate

/-! ### Halves of a row -/

/-- The columns from an index on, and behind them the columns before it. -/
def Schema.exchange (s : Schema) (n : Nat) : Schema :=
  ⟨s.columns.rotate n, by simp [s.columns_ne_nil]⟩

/-- The row from a column on, and behind it the part before that column. -/
def Tuple.exchange (t : Tuple) (n : Nat) : Tuple :=
  ⟨t.schema.exchange n, t.values.rotate n, t.record⟩

/-- Two rows that are joined can be joined the other way round. -/
theorem Tuple.exchange_concat {l : Tuple} (h : l.Complete) (r : Tuple) :
    (l.concat r).exchange l.schema.arity = r.concat l := by
  have hschema : (l.schema.merge r.schema).exchange l.schema.arity =
      r.schema.merge l.schema := by
    simp only [Schema.exchange, Schema.merge, Schema.arity, List.rotate_append_length_eq]
  have hvalues : (l.values ++ r.values).rotate l.schema.arity = r.values ++ l.values := by
    rw [← show l.values.length = l.schema.arity from h, List.rotate_append_length_eq]
  show Tuple.mk _ _ none = Tuple.mk _ _ none
  rw [schema_concat, values_concat, hschema, hvalues]

namespace Operator

variable {e : Engine} {left right op : Operator} {p : JoinPredicate}

/-! ### Strategies -/

/-- An operator joins two children by a predicate, in a way that was picked for it or is given. A
table serves for equalities only. -/
inductive Joins (p : JoinPredicate) (left right : Operator) : Operator → Prop
  | picked : Joins p left right (join p left right)
  | loop : Joins p left right (looped p left right)
  | table (h : p.op = .equal) : Joins p left right (hashed p left right)

namespace Joins

/-- A join is of one of two kinds. -/
theorem cases_kind (h : Joins p left right op) :
    (∃ planned, op = nestedLoop planned p left right (left.schema.merge right.schema) none {}) ∨
      p.op = .equal ∧ ∃ planned,
        op = hashJoin planned p left right (left.schema.merge right.schema) none [] {} := by
  cases h with
  | picked =>
    unfold join
    split_ifs with hequal
    · exact .inr ⟨hequal, true, rfl⟩
    · exact .inl ⟨true, rfl⟩
  | loop => exact .inl ⟨false, rfl⟩
  | table hequal => exact .inr ⟨hequal, false, rfl⟩

theorem built (h : Joins p left right op) (hl : left.Built e) (hr : right.Built e) :
    op.Built e := by
  cases h with
  | picked => exact .join p hl hr
  | loop => exact .loop p hl hr
  | table => exact .hash p hl hr

theorem schema_eq (h : Joins p left right op) : op.schema = left.schema.merge right.schema := by
  obtain ⟨planned, rfl⟩ | ⟨-, planned, rfl⟩ := h.cases_kind <;> rfl

theorem scans_iff (h : Joins p left right op) (db : Nat) (table : TableId) :
    op.Scans db table ↔ left.Scans db table ∨ right.Scans db table := by
  obtain ⟨planned, rfl⟩ | ⟨-, planned, rfl⟩ := h.cases_kind <;> rfl

/-- Each way of joining finds the pairs that match, and each of them once. -/
theorem perm (h : Joins p left right op) (hop : op.Idle e) {found : List Tuple}
    (hfound : op.Gives e found) :
    found.Perm ((p.pairs (left.answer e) (right.answer e)).map fun pair =>
      pair.1.concat pair.2) := by
  rw [hfound.eq_answer hop]
  obtain ⟨planned, rfl⟩ | ⟨hequal, planned, rfl⟩ := h.cases_kind
  · exact .of_eq (p.loopRows_eq_pairs _ _)
  · rw [← JoinPredicate.matching_eq_pairs hequal]
    exact JoinPredicate.hashRows_perm _ _

/-- A join does not fail if its children do not and the columns that it compares have values. -/
theorem total (h : Joins p left right op) (hl : left.Total e) (hr : right.Total e)
    (hkeysl : ∀ l ∈ left.answer e, ∃ key, l.field p.left = .ok key)
    (hkeysr : ∀ r ∈ right.answer e, ∃ key, r.field p.right = .ok key) : op.Total e := by
  obtain ⟨planned, rfl⟩ | ⟨-, planned, rfl⟩ := h.cases_kind
  · refine ⟨hl, hr, fun l hmeml r hmemr => ?_⟩
    obtain ⟨a, ha⟩ := hkeysl l hmeml
    obtain ⟨b, hb⟩ := hkeysr r hmemr
    refine ⟨a.satisfies p.op b, ?_⟩
    rw [JoinPredicate.holds, ha, hb]
    rfl
  · exact ⟨hl, hr, hkeysl, hkeysr⟩

/-- A join of queries gives its rows if its children do not fail. -/
theorem exists_gives (h : Joins p left right op) (hop : op.Idle e) (hl : left.Total e)
    (hr : right.Total e) (hkeysl : ∀ l ∈ left.answer e, ∃ key, l.field p.left = .ok key)
    (hkeysr : ∀ r ∈ right.answer e, ∃ key, r.field p.right = .ok key) :
    ∃ found, op.Gives e found :=
  ⟨_, hop.gives (h.total hl hr hkeysl hkeysr)⟩

end Joins

/-- **A join can be turned round**, whichever way either of the two joins finds its pairs. -/
theorem joins_mirrored (hp : p.op ≠ .like) (hl : left.Built e) (hr : right.Built e)
    (hcurrent : ∀ db table, left.Scans db table ∨ right.Scans db table →
      (e.store db).Current table)
    (hkeysl : ∀ l ∈ left.answer e, ∃ key, l.field p.left = .ok key)
    (hkeysr : ∀ r ∈ right.answer e, ∃ key, r.field p.right = .ok key)
    {there back : Operator} (hthere : Joins p left right there)
    (hback : Joins p.mirror right left back) :
    let pairs := p.pairs (left.answer e) (right.answer e)
    there.schema = left.schema.merge right.schema ∧
      back.schema = right.schema.merge left.schema ∧
      (∀ found, there.Gives e found →
        found.Perm (pairs.map fun pair => pair.1.concat pair.2)) ∧
      (∀ found', back.Gives e found' →
        found'.Perm (pairs.map fun pair => pair.2.concat pair.1)) ∧
      (∀ n, (∀ l ∈ left.answer e, l.Complete ∧ l.schema.arity = n) →
        ∀ found found', there.Gives e found → back.Gives e found' →
          (found.map fun row => row.exchange n).Perm found') ∧
      (left.Total e → right.Total e →
        (∃ found, there.Gives e found) ∧ ∃ found', back.Gives e found') := by
  have hidle : there.Idle e := (hthere.built hl hr).idle fun db table h =>
    hcurrent db table ((hthere.scans_iff db table).1 h)
  have hidle' : back.Idle e := (hback.built hr hl).idle fun db table h =>
    hcurrent db table ((hback.scans_iff db table).1 h).symm
  have hfound := fun found (h : there.Gives e found) => hthere.perm hidle h
  have hfound' : ∀ found', back.Gives e found' → found'.Perm
      ((p.pairs (left.answer e) (right.answer e)).map fun pair => pair.2.concat pair.1) := by
    intro found' h
    have hturned := (p.pairs_mirror hp (left.answer e) (right.answer e)).map
      fun pair => pair.1.concat pair.2
    rw [List.map_map] at hturned
    exact (hback.perm hidle' h).trans hturned
  refine ⟨hthere.schema_eq, hback.schema_eq, hfound, hfound', ?_, ?_⟩
  · intro n hwide found found' h h'
    have hexchange : ((p.pairs (left.answer e) (right.answer e)).map fun pair =>
        pair.1.concat pair.2).map (fun row => row.exchange n) =
          (p.pairs (left.answer e) (right.answer e)).map fun pair => pair.2.concat pair.1 := by
      rw [List.map_map]
      refine List.map_congr_left fun pair hpair => ?_
      obtain ⟨hcomplete, rfl⟩ := hwide pair.1 (JoinPredicate.mem_of_mem_pairs hpair).1
      exact Tuple.exchange_concat hcomplete pair.2
    have hback' := hfound' found' h'
    rw [← hexchange] at hback'
    exact ((hfound found h).map _).trans hback'.symm
  · intro htotall htotalr
    exact ⟨hthere.exists_gives hidle htotall htotalr hkeysl hkeysr,
      hback.exists_gives hidle' htotalr htotall hkeysr hkeysl⟩

/-- Numbers and strings that are not larger, and the other way round. The one join is of the kind
that is picked, and the other a loop. -/
theorem joins_mirrored_keyRows :
    let p : JoinPredicate := ⟨0, .lessEq, 0⟩
    let left := keyRows [.int 1, .str "1", .int 2, .int 1]
    let right := keyRows [.str "2", .int 1, .int 3]
    let e := Engine.new []
    p.op ≠ .like ∧ p.mirror = ⟨0, .greaterEq, 0⟩ ∧ left.Built e ∧ right.Built e ∧
      (∀ db table, left.Scans db table ∨ right.Scans db table → (e.store db).Current table) ∧
      (∀ l ∈ left.answer e, ∃ key, l.field p.left = .ok key) ∧
      (∀ r ∈ right.answer e, ∃ key, r.field p.right = .ok key) ∧
      (∀ l ∈ left.answer e, l.Complete ∧ l.schema.arity = 1) ∧
      ∃ found found', (join p left right).Gives e found ∧
        (looped p.mirror right left).Gives e found' ∧
        (found.map fun row => row.exchange 1).Perm found' ∧
        (found.map Tuple.values).Perm [[some (.int 1), some (.int 1)],
          [some (.int 1), some (.int 3)], [some (.str "1"), some (.str "2")],
          [some (.int 2), some (.int 3)], [some (.int 1), some (.int 1)],
          [some (.int 1), some (.int 3)]] := by
  intro p left right e
  have hkeys : ∀ {keys : List Value} {row : Tuple}, row ∈ (keyRows keys).answer e →
      (∃ key, row.field 0 = .ok key) ∧ row.Complete ∧ row.schema.arity = 1 := by
    intro keys row hrow
    obtain ⟨key, -, rfl⟩ := List.mem_map.1 hrow
    exact ⟨⟨key, rfl⟩, rfl, rfl⟩
  have hcurrent : ∀ db table, left.Scans db table ∨ right.Scans db table →
      (e.store db).Current table := fun db table h => h.elim False.elim False.elim
  obtain ⟨-, -, hpairs, -, hsame, htotal⟩ := @joins_mirrored e left right p (by decide) (.rows _ _)
    (.rows _ _) hcurrent (fun _ h => (hkeys h).1) (fun _ h => (hkeys h).1) _ _ .picked .loop
  obtain ⟨⟨found, hfound⟩, found', hfound'⟩ := htotal trivial trivial
  have hrows : (p.pairs (left.answer e) (right.answer e)).map
      (fun pair => (pair.1.concat pair.2).values) =
        [[some (.int 1), some (.int 1)], [some (.int 1), some (.int 3)],
          [some (.str "1"), some (.str "2")], [some (.int 2), some (.int 3)],
          [some (.int 1), some (.int 1)], [some (.int 1), some (.int 3)]] := by decide +kernel
  have hvalues := (hpairs found hfound).map Tuple.values
  rw [List.map_map] at hvalues
  exact ⟨by decide, rfl, .rows _ _, .rows _ _, hcurrent, fun _ h => (hkeys h).1,
    fun _ h => (hkeys h).1, fun _ h => (hkeys h).2, found, found', hfound, hfound',
    hsame 1 (fun _ h => (hkeys h).2) found found' hfound hfound', hrows ▸ hvalues⟩

end Operator

end Rowstore
