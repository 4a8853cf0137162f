import Mathlib
import Rowstore.Proofs.Query.Draining

/-!
# The two ways to join by equality

A join whose predicate is an equality can try all pairs or look the right rows up in a table of the
left ones. The pairs that match are the same, because values satisfy an equality exactly if they are
equal: numbers by value, strings by their characters, and never one of each. So both ways give the
same rows up to their order, each matching pair once: `Operator.joins_agree`. The rows carry no
record, and neither join fails if the children do not.
-/

namespace Rowstore

/-- Values satisfy an equality exactly if they are equal. -/
theorem Value.satisfies_equal {a b : Value} : a.satisfies .equal b = true ↔ a = b := by
  cases a with
  | int m =>
    cases b with
    | int n =>
      show (compare m.toInt n.toInt == .eq) = true ↔ _
      rw [beq_iff_eq, compare_eq_iff_eq, Int32.toInt_inj, Value.int.injEq]
    | str t => exact ⟨nofun, nofun⟩
  | str s =>
    cases b with
    | int n => exact ⟨nofun, nofun⟩
    | str t =>
      show (compare s t == .eq) = true ↔ _
      rw [beq_iff_eq, compare_eq_iff_eq, Value.str.injEq]

namespace JoinPredicate

variable {p : JoinPredicate}

/-- Rows satisfy an equality exactly if they have equal keys. -/
theorem accepts_eq_sameKey (h : p.op = .equal) (l r : Tuple) : p.accepts l r = p.sameKey l r := by
  unfold accepts sameKey holds
  rw [h]
  cases l.field p.left with
  | error cause => rfl
  | ok a =>
    cases r.field p.right with
    | error cause => rfl
    | ok b =>
      show a.satisfies .equal b = decide (a = b)
      rw [Bool.eq_iff_iff, Value.satisfies_equal, decide_eq_true_iff]

/-- The pairs of rows with equal keys, joined, the left row leading. -/
def matching (p : JoinPredicate) (ls rs : List Tuple) : List Tuple :=
  ((ls ×ˢ rs).filter fun pair => p.sameKey pair.1 pair.2).map fun pair => pair.1.concat pair.2

/-- The pairs of rows that satisfy the predicate, the left row leading. -/
def pairs (p : JoinPredicate) (ls rs : List Tuple) : List (Tuple × Tuple) :=
  (ls ×ˢ rs).filter fun pair => p.accepts pair.1 pair.2

theorem mem_of_mem_pairs {ls rs : List Tuple} {pair : Tuple × Tuple} (h : pair ∈ p.pairs ls rs) :
    pair.1 ∈ ls ∧ pair.2 ∈ rs :=
  List.pair_mem_product.1 (List.mem_of_mem_filter h)

/-- Rows are tried pair by pair, the left row leading. -/
theorem loopRows_eq_pairs (p : JoinPredicate) (ls rs : List Tuple) :
    p.loopRows ls rs = (p.pairs ls rs).map fun pair => pair.1.concat pair.2 := by
  rw [pairs, show ls ×ˢ rs = ls.flatMap fun l => rs.map (Prod.mk l) from rfl,
    List.filter_flatMap, List.map_flatMap, loopRows]
  refine congrArg (ls.flatMap ·) (funext fun l => ?_)
  rw [List.filter_map, List.map_map, matchesOf]
  rfl

/-- The pairs that satisfy an equality are those with equal keys. -/
theorem matching_eq_pairs (h : p.op = .equal) (ls rs : List Tuple) :
    p.matching ls rs = (p.pairs ls rs).map fun pair => pair.1.concat pair.2 := by
  rw [matching, pairs]
  refine congrArg _ (List.filter_congr fun pair _ => ?_)
  exact (accepts_eq_sameKey h pair.1 pair.2).symm

theorem loopRows_eq_matching (h : p.op = .equal) (ls rs : List Tuple) :
    p.loopRows ls rs = p.matching ls rs :=
  (p.loopRows_eq_pairs ls rs).trans (matching_eq_pairs h ls rs).symm

/-- Two loops can be nested either way, up to the order of what they give. -/
theorem flatMap_swap {α β γ : Type} (f : α → β → List γ) (as : List α) (bs : List β) :
    (as.flatMap fun a => bs.flatMap fun b => f a b).Perm
      (bs.flatMap fun b => as.flatMap fun a => f a b) := by
  induction as with
  | nil => simp
  | cons a as ih =>
    simp only [List.flatMap_cons]
    exact (ih.append_left _).trans (List.flatMap_append_perm bs _ _)

theorem map_filter_eq_flatMap {α β : Type} (q : α → Bool) (f : α → β) (as : List α) :
    (as.filter q).map f = as.flatMap fun a => if q a then [f a] else [] := by
  induction as with
  | nil => rfl
  | cons a as ih =>
    rw [List.flatMap_cons, List.filter_cons, ← ih]
    split_ifs <;> rfl

/-- Looking up the right rows finds the same pairs in another order. -/
theorem hashRows_perm (ls rs : List Tuple) : (p.hashRows ls rs).Perm (p.matching ls rs) := by
  have hpairs : p.matching ls rs =
      ls.flatMap fun l => rs.flatMap fun r => if p.sameKey l r then [l.concat r] else [] := by
    rw [matching, map_filter_eq_flatMap,
      show ls ×ˢ rs = ls.flatMap fun l => rs.map (Prod.mk l) from rfl, List.flatMap_assoc]
    simp only [List.flatMap_map]
  have hlookups : p.hashRows ls rs =
      rs.flatMap fun r => ls.flatMap fun l => if p.sameKey l r then [l.concat r] else [] := by
    rw [hashRows]
    simp only [partnersOf, map_filter_eq_flatMap]
  rw [hpairs, hlookups]
  exact flatMap_swap (fun r l => if p.sameKey l r then [l.concat r] else []) rs ls

end JoinPredicate

namespace Operator

variable {e : Engine} {left right : Operator} {p : JoinPredicate}

/-- A join by a table gives the matching pairs. -/
theorem Gives.perm_of_hashed (hop : (hashed p left right).Idle e) {found : List Tuple}
    (h : (hashed p left right).Gives e found) :
    found.Perm (p.matching (left.answer e) (right.answer e)) := by
  rw [h.eq_answer hop]
  exact JoinPredicate.hashRows_perm _ _

/-- A nested loop over an equality gives the matching pairs. -/
theorem Gives.perm_of_looped (hop : (looped p left right).Idle e) (hp : p.op = .equal)
    {found : List Tuple} (h : (looped p left right).Gives e found) :
    found.Perm (p.matching (left.answer e) (right.answer e)) := by
  rw [h.eq_answer hop]
  exact .of_eq (JoinPredicate.loopRows_eq_matching hp _ _)

/-- **The two join strategies agree**: each gives the matching pairs, every pair once. -/
theorem joins_agree (hp : p.op = .equal) (hl : left.Built e) (hr : right.Built e)
    (hcurrent : ∀ db table, left.Scans db table ∨ right.Scans db table →
      (e.store db).Current table)
    (hkeysl : ∀ l ∈ left.answer e, ∃ key, l.field p.left = .ok key)
    (hkeysr : ∀ r ∈ right.answer e, ∃ key, r.field p.right = .ok key) :
    let pairs := p.matching (left.answer e) (right.answer e)
    let merged := left.schema.merge right.schema
    (hashed p left right).schema = merged ∧ (looped p left right).schema = merged ∧
      (∀ found, (hashed p left right).Gives e found → found.Perm pairs) ∧
      (∀ found, (looped p left right).Gives e found → found.Perm pairs) ∧
      (∀ row ∈ pairs, row.record = none ∧
        ((∀ l ∈ left.answer e, l.schema = left.schema) →
          (∀ r ∈ right.answer e, r.schema = right.schema) → row.schema = merged)) ∧
      (left.Total e → right.Total e →
        (∃ found, (hashed p left right).Gives e found) ∧
          ∃ found, (looped p left right).Gives e found) := by
  have hhash : (hashed p left right).Idle e := (Built.hash p hl hr).idle hcurrent
  have hloop : (looped p left right).Idle e := (Built.loop p hl hr).idle hcurrent
  refine ⟨rfl, rfl, fun found h => h.perm_of_hashed hhash,
    fun found h => h.perm_of_looped hloop hp, ?_, ?_⟩
  · intro row hrow
    obtain ⟨⟨l, r⟩, hpair, rfl⟩ := List.mem_map.1 hrow
    obtain ⟨hl, hr⟩ := List.pair_mem_product.1 (List.mem_filter.1 hpair).1
    refine ⟨rfl, fun hschemal hschemar => ?_⟩
    rw [Tuple.schema_concat, hschemal l hl, hschemar r hr]
  · intro htotall htotalr
    refine ⟨⟨_, hhash.gives ⟨htotall, htotalr, hkeysl, hkeysr⟩⟩,
      ⟨_, hloop.gives ⟨htotall, htotalr, fun l hl r hr => ?_⟩⟩⟩
    obtain ⟨a, ha⟩ := hkeysl l hl
    obtain ⟨b, hb⟩ := hkeysr r hr
    refine ⟨a.satisfies p.op b, ?_⟩
    rw [JoinPredicate.holds, ha, hb]
    rfl

/-- Rows in memory with one column, of numbers and strings. -/
def keyRows (keys : List Value) : Operator :=
  ofRows Store.numbers (keys.map fun key => Tuple.ofList Store.numbers [key])

theorem joins_agree_keyRows :
    let p : JoinPredicate := ⟨0, .equal, 0⟩
    let left := keyRows [.int 1, .str "1", .int 2, .int 1]
    let right := keyRows [.str "1", .int 1, .int 3, .int 1]
    let e := Engine.new []
    p.op = .equal ∧ left.Built e ∧ right.Built e ∧
      (∀ db table, left.Scans db table ∨ right.Scans db table → (e.store db).Current table) ∧
      (∀ l ∈ left.answer e, ∃ key, l.field p.left = .ok key) ∧
      (∀ r ∈ right.answer e, ∃ key, r.field p.right = .ok key) ∧
      ∃ byTable byLoop, (hashed p left right).Gives e byTable ∧
        (looped p left right).Gives e byLoop ∧ byTable.Perm byLoop ∧
        (byLoop.map Tuple.values).Perm [[some (.int 1), some (.int 1)],
          [some (.int 1), some (.int 1)], [some (.str "1"), some (.str "1")],
          [some (.int 1), some (.int 1)], [some (.int 1), some (.int 1)]] := by
  intro p left right e
  have hkeys : ∀ {keys : List Value} {row : Tuple}, row ∈ (keyRows keys).answer e →
      ∃ key, row.field 0 = .ok key := by
    intro keys row hrow
    obtain ⟨key, -, rfl⟩ := List.mem_map.1 hrow
    exact ⟨key, rfl⟩
  have hcurrent : ∀ db table, left.Scans db table ∨ right.Scans db table →
      (e.store db).Current table := fun db table h => h.elim False.elim False.elim
  obtain ⟨-, -, hhash, hloop, -, htotal⟩ := @joins_agree e left right p
    rfl (.rows _ _) (.rows _ _) hcurrent (fun _ => hkeys) (fun _ => hkeys)
  obtain ⟨⟨byTable, htable⟩, byLoop, hbyLoop⟩ := htotal trivial trivial
  have hpairs : (p.matching (left.answer e) (right.answer e)).map Tuple.values =
      [[some (.int 1), some (.int 1)], [some (.int 1), some (.int 1)],
        [some (.str "1"), some (.str "1")], [some (.int 1), some (.int 1)],
        [some (.int 1), some (.int 1)]] := by decide +kernel
  exact ⟨rfl, .rows _ _, .rows _ _, hcurrent, fun _ => hkeys, fun _ => hkeys, byTable, byLoop,
    htable, hbyLoop, (hhash _ htable).trans (hloop _ hbyLoop).symm,
    hpairs ▸ (hloop _ hbyLoop).map Tuple.values⟩

end Operator

end Rowstore
