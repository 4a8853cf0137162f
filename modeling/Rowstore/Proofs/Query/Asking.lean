import Mathlib
import Rowstore.Proofs.Query.Moving
import Rowstore.Proofs.Query.Replaying

/-!
# Looking changes nothing

An operator, an insertion or a deletion too, is asked for its rows in some pattern of calls of
`hasNext` and `next`, `Operator.Asks`. What the calls of `next` give is the same with and without
the calls of `hasNext`, wherever these are made.

* After a call of `hasNext` the operator is as it was, but for the row that is kept for the next
  call, `Operator.Looked`. So calls of `hasNext` can be left out, `Operator.Asks.takes`, and calls
  of `next` alone are determined by where they begin, `Operator.Takes.prefix_or`.
* The end of the rows is an end for good, `Operator.Exhausted`: no change of the tables makes a row
  come after it.
* An insertion or a deletion does its work for all rows of its child at the first pull,
  `Operator.Fed`, and never again.
* An operator that was never opened, or was closed, refuses: `Operator.Shut`.
-/

namespace Rowstore

namespace Operator

variable {e e' : Engine} {op op' child : Operator} {s s' t u : Operator × Engine} {n m : Nat}

/-! ### Calls -/

/-- What `next` tells of a row, or of none. -/
def told : Option Tuple → Except DbError Tuple
  | some row => .ok row
  | none => .error .noSuchElement

/-- Calls of `hasNext` and `next` that come to an answer, with the row, or none, that each call of
`next` tells. Between the calls others may do something with the databases. -/
inductive Asks (others : Engine → Engine → Prop) :
    Operator × Engine → List (Option Tuple) → Operator × Engine → Prop
  | done (s : Operator × Engine) : Asks others s [] s
  | look {s s' t n more given} (h : s.1.hasNext n s.2 = (.ok more, s'))
      (rest : Asks others s' given t) : Asks others s given t
  | take {s s' t n row given} (h : s.1.next n s.2 = (told row, s'))
      (rest : Asks others s' given t) : Asks others s (row :: given) t
  | elsewhere {s e t given} (h : others s.2 e) (rest : Asks others (s.1, e) given t) :
      Asks others s given t

/-- Calls of `next` alone. -/
inductive Takes : Operator × Engine → List (Option Tuple) → Operator × Engine → Prop
  | done (s : Operator × Engine) : Takes s [] s
  | take {s s' t n row given} (h : s.1.next n s.2 = (told row, s')) (rest : Takes s' given t) :
      Takes s (row :: given) t

/-- The operator is as it was, but for a row that may have been looked at. -/
def Looked (s t : Operator × Engine) : Prop :=
  t = s ∨ ∃ n more, s.1.hasNext n s.2 = (.ok more, t)

/-- `next` tells what a pull gives. -/
theorem next_eq_told_iff {row : Option Tuple} :
    op.next n e = (told row, s) ↔ op.pull n e = (.ok row, s) := by
  have hfails := (pull_handed n op e).fails
  unfold next
  generalize op.pull n e = o at hfails ⊢
  obtain ⟨cause | (_ | found), t⟩ := o <;> cases row <;> simp_all [told]

/-- A call of `hasNext` that finds a row keeps it for the next pull. One that finds none leaves the
operator at its end. -/
theorem look_cases {more : Bool} (h : op.hasNext n e = (.ok more, s)) :
    (more = true ∧ ∃ row op', op.pull n e = (.ok (some row), op', s.2) ∧
      s.1 = op'.setPeeked (some row) ∧ ∀ m e', s.1.pull m e' = (.ok (some row), op', e')) ∨
    (more = false ∧ op.pull n e = (.ok none, s) ∧ s.1.AtEnd ∧ s.1.cursor = .ready) := by
  obtain ⟨row, op', hpull, rfl, hsame⟩ := pull_of_hasNext h
  have hready : op'.cursor = .ready := ready_of_pull hpull
  have hclear : op'.clear = op' := clear_eq_self (by rw [hready]; rfl)
  cases row with
  | none =>
    have hself : op'.setPeeked none = op' := mapCursor_eq_self (by rw [hready]; rfl)
    have htree : s.1 = op' := hsame.trans hself
    refine .inr ⟨rfl, ?_, htree ▸ atEnd_of_pull hpull, htree ▸ hready⟩
    rw [hpull, ← htree]
  | some row =>
    refine .inl ⟨rfl, row, op', hpull, hsame, fun m e' => ?_⟩
    rw [hsame, pull, pullWith, setPeeked, cursor_mapCursor, hready]
    show (Except.ok (some row), (op'.setPeeked (some row)).clear, e') = _
    rw [clear_setPeeked, hclear]

/-- A pull that has ended comes to what it comes to with any steps that end it. -/
theorem pull_unique (hn : Finished (op.pull n e)) (hm : Finished (op.pull m e)) :
    op.pull n e = op.pull m e := by
  rcases le_total n m with hle | hle
  · exact (pull_of_le hle op e hn).symm
  · exact pull_of_le hle op e hm

/-! ### The end -/

/-- There is no row any more, whatever becomes of the databases, and asking for one changes
nothing. -/
def Exhausted (op : Operator) : Prop :=
  ∀ e, ∃ N, ∀ n, N ≤ n →
    op.hasNext n e = (.ok false, op, e) ∧ op.next n e = (.error .noSuchElement, op, e)

theorem AtEnd.pull (h : op.AtEnd) (hready : op.cursor = .ready) (e : Engine) :
    Settles (fun n => op.pull n e) (· = (.ok none, op, e)) := by
  have hpull : ∀ n, op.pull n e = op.fetch n e := fun n => pullWith_eq_of_ready hready _ e
  simpa only [hpull] using h.fetch e

theorem AtEnd.pull_eq (h : op.AtEnd) (hready : op.cursor = .ready)
    (hn : Finished (op.pull n e)) : op.pull n e = (.ok none, op, e) :=
  (h.pull hready e).of_finished (fun _ _ hle => pull_of_le hle op e) hn

theorem AtEnd.exhausted (h : op.AtEnd) (hready : op.cursor = .ready) : op.Exhausted := by
  intro e
  obtain ⟨o, -, rfl, N, hN⟩ := h.pull hready e
  have hself : op.setPeeked none = op := mapCursor_eq_self (by rw [hready]; rfl)
  refine ⟨N, fun n hn => ⟨?_, next_of_ended (hN n hn)⟩⟩
  have hpull : op.pull n e = (.ok none, op, e) := hN n hn
  rw [hasNext, hpull]
  show (Except.ok false, op.setPeeked none, e) = _
  rw [hself]

/-- At its end an operator gives no row and stays as it is. -/
theorem AtEnd.asks {others : Engine → Engine → Prop} {given : List (Option Tuple)}
    (hasks : Asks others s given t) (h : s.1.AtEnd) (hready : s.1.cursor = .ready) :
    t.1 = s.1 ∧ ∀ row ∈ given, row = none := by
  induction hasks with
  | done s => exact ⟨rfl, nofun⟩
  | @look s s' t n more given hlook rest ih =>
    have hsame : s'.1 = s.1 := by
      rcases look_cases hlook with ⟨-, row, op', hpull, -⟩ | ⟨-, hpull, -⟩
      · have hend := h.pull_eq hready (n := n) (e := s.2) (by rw [hpull]; exact nofun)
        cases hpull.symm.trans hend
      · have hend := h.pull_eq hready (n := n) (e := s.2) (by rw [hpull]; exact nofun)
        exact congrArg (·.2.1) (hpull.symm.trans hend)
    obtain ⟨htree, hgiven⟩ := ih (hsame ▸ h) (hsame ▸ hready)
    exact ⟨htree.trans hsame, hgiven⟩
  | @take s s' t n row given htake rest ih =>
    have hpull := next_eq_told_iff.1 htake
    have hend := h.pull_eq hready (n := n) (e := s.2) (by rw [hpull]; exact nofun)
    have hsame : s'.1 = s.1 := congrArg (·.2.1) (hpull.symm.trans hend)
    obtain rfl : row = none := Except.ok.inj (congrArg Prod.fst (hpull.symm.trans hend))
    obtain ⟨htree, hgiven⟩ := ih (hsame ▸ h) (hsame ▸ hready)
    exact ⟨htree.trans hsame, List.forall_mem_cons.2 ⟨rfl, hgiven⟩⟩
  | elsewhere _ _ ih => exact ih h hready

/-! ### Leaving out looks -/

/-- `next` gives the same whether or not a row was looked at before. -/
theorem Looked.pull (h : Looked s t) {row : Option Tuple} (hpull : t.1.pull n t.2 = (.ok row, u)) :
    ∃ m, s.1.pull m s.2 = (.ok row, u) := by
  rcases h with rfl | ⟨m, more, hlook⟩
  · exact ⟨n, hpull⟩
  · rcases look_cases hlook with ⟨-, found, op', hfound, -, hkept⟩ | ⟨-, hnone, hend, hready⟩
    · cases (hkept n t.2).symm.trans hpull
      exact ⟨m, hfound⟩
    · have hagain := hend.pull_eq hready (n := n) (e := t.2) (by rw [hpull]; exact nofun)
      cases hagain.symm.trans hpull
      exact ⟨m, hnone⟩

/-- Looking again changes nothing. -/
theorem Looked.look (h : Looked s t) {more : Bool} (hlook : t.1.hasNext n t.2 = (.ok more, u)) :
    Looked s u := by
  rcases h with rfl | ⟨m, more', hbefore⟩
  · exact .inr ⟨n, more, hlook⟩
  · obtain ⟨row, op', hpull, rfl, hsame⟩ := pull_of_hasNext hlook
    refine .inr ⟨m, more', ?_⟩
    suffices u = t by rw [this, hbefore]
    obtain ⟨looked, eu⟩ := u
    obtain ⟨tree, et⟩ := t
    obtain rfl : looked = op'.setPeeked row := hsame
    rcases look_cases hbefore with ⟨-, found, op'', -, htree, hkept⟩ | ⟨-, -, hend, hready⟩
    · obtain rfl : tree = op''.setPeeked (some found) := htree
      cases (hkept n et).symm.trans hpull
      rfl
    · have hagain := hend.pull_eq hready (n := n) (e := et) (by rw [hpull]; exact nofun)
      obtain ⟨hrow, htree, heng⟩ : none = row ∧ tree = op' ∧ et = eu := by
        simpa using hagain.symm.trans hpull
      subst hrow htree heng
      exact Prod.ext (mapCursor_eq_self (by rw [hready]; rfl)) rfl

/-- While nobody else acts, calls of `hasNext` can be left out. -/
theorem Asks.takes {given : List (Option Tuple)} (h : Asks (fun e e' => e' = e) s given t)
    (hlooked : Looked u s) : ∃ t', Takes u given t' ∧ Looked t' t := by
  induction h generalizing u with
  | done s => exact ⟨u, .done u, hlooked⟩
  | look hlook _ ih => exact ih (hlooked.look hlook)
  | @take s s' t n row given htake _ ih =>
    obtain ⟨m, hpull⟩ := hlooked.pull (next_eq_told_iff.1 htake)
    obtain ⟨t', htakes, hlast⟩ := ih (.inl rfl)
    exact ⟨t', .take (next_eq_told_iff.2 hpull) htakes, hlast⟩
  | elsewhere hsame _ ih =>
    cases hsame
    exact ih hlooked

/-- Calls of `next` alone give the same rows, as many as there are of them. -/
theorem Takes.prefix_or {given given' : List (Option Tuple)} (h : Takes s given t)
    (h' : Takes s given' u) : given <+: given' ∨ given' <+: given := by
  induction h generalizing given' u with
  | done s => exact .inl List.nil_prefix
  | @take s s' t n row given htake rest ih =>
    cases h' with
    | done => exact .inr List.nil_prefix
    | @take _ s'' _ m row' given' htake' rest' =>
      have hpull := next_eq_told_iff.1 htake
      have hpull' := next_eq_told_iff.1 htake'
      have hsame := pull_unique (n := n) (m := m) (by rw [hpull]; exact nofun)
        (by rw [hpull']; exact nofun)
      cases hpull.symm.trans (hsame.trans hpull')
      exact (ih rest').imp (List.prefix_cons_inj row).2 (List.prefix_cons_inj row).2

/-! ### Queries that others read along with -/

/-- Each call of `next` gives the row that is as far ahead as there were calls before it. -/
theorem Left.asks (h : Left e op s) {given : List (Option Tuple)}
    (hasks : Asks Engine.Reads s given t) {ahead : List Tuple}
    (hahead : (s.1.prospect e).now.Lists ahead) :
    given = (List.range given.length).map fun k => ahead[k]? := by
  have hcons : ∀ {first : Option Tuple} {given : List (Option Tuple)} {rows rows' : List Tuple},
      rows[0]? = first → (∀ k, rows[k + 1]? = rows'[k]?) →
      (given = (List.range given.length).map fun k => rows'[k]?) →
      first :: given = (List.range (first :: given).length).map fun k => rows[k]? := by
    rintro first given rows rows' rfl hrest hgiven
    rw [List.length_cons, List.range_succ_eq_map, List.map_cons, List.map_map]
    refine congrArg _ (hgiven.trans (List.map_congr_left fun k _ => (hrest k).symm))
  induction hasks generalizing ahead with
  | done s => rfl
  | look hlook _ ih =>
    obtain ⟨hleft, hnow⟩ := h.call (.look hlook)
    rw [hnow] at hahead
    exact ih hleft hahead
  | @take s s' t n row given htake _ ih =>
    obtain ⟨hleft, hnow, hend⟩ := h.pull (next_eq_told_iff.1 htake)
    rw [hnow] at hahead
    cases row with
    | none =>
      obtain rfl : ahead = [] := by
        rw [hend rfl] at hahead
        cases hahead
        rfl
      exact hcons rfl (fun _ => rfl) (ih hleft hahead)
    | some row =>
      cases hahead with
      | row _ hrest => exact hcons rfl (fun _ => rfl) (ih hleft hrest)
  | elsewhere hreads _ ih =>
    obtain ⟨hleft, hnow⟩ := h.call (.elsewhere hreads)
    rw [hnow] at hahead
    exact ih hleft hahead

/-! ### Insertions and deletions -/

/-- The child of an insertion or a deletion, and what is done with each of its rows. -/
def task : Operator → Option (Operator × (Tuple → Engine → Outcome Engine Unit))
  | insert db tx table schema child _ _ => some (child, fun row e =>
      e.run db fun s => s.insertRow tx table { row.relabel schema with record := none })
  | delete db tx child _ _ => some (child, fun row e => e.run db fun s => s.deleteRow tx row)
  | _ => none

/-- An insertion or a deletion has done its work. -/
def Performed : Operator → Prop
  | insert _ _ _ _ _ done _ | delete _ _ _ done _ => done = true
  | _ => False

/-- So many rows of an operator, all that it has, are taken one after another, and something is done
with each of them. -/
inductive Fed (put : Tuple → Engine → Outcome Engine Unit) :
    Operator × Engine → Nat → Operator × Engine → Prop
  | ended {s t : Operator × Engine} {n : Nat} (h : s.1.pull n s.2 = (.ok none, t)) : Fed put s 0 t
  | more {s s' t : Operator × Engine} {e : Engine} {n count : Nat} {row : Tuple}
      (h : s.1.pull n s.2 = (.ok (some row), s'))
      (hput : put row s'.2 = (.ok (), e)) (rest : Fed put (s'.1, e) count t) :
      Fed put s (count + 1) t

/-- What counts the rows that it deals with deals with all rows of an operator. -/
theorem fed_of_drainWith {put : Tuple → Engine → Outcome Engine Unit}
    {take : Nat → Tuple → Engine → Outcome Engine Nat}
    (htake : ∀ count row e, take count row e = (put row e).andThen id fun _ e => (.ok (count + 1), e))
    {steps before count : Nat} (h : drainWith (pull n) take steps before op e = (.ok count, t)) :
    ∃ rows, count = before + rows ∧ Fed put (op, e) rows t := by
  induction steps generalizing before op e with
  | zero => cases h
  | succ steps ih =>
    rw [drainWith] at h
    obtain ⟨row, ⟨op', e'⟩, hpull, h⟩ := Outcome.andThen_eq_ok_iff.1 h
    cases row with
    | none =>
      cases h
      exact ⟨0, rfl, .ended hpull⟩
    | some row =>
      obtain ⟨count', e'', hcount, h⟩ := Outcome.andThen_eq_ok_iff.1 h
      rw [htake] at hcount
      obtain ⟨u, e₃, hput, hcount⟩ := Outcome.andThen_eq_ok_iff.1 hcount
      cases hcount
      obtain ⟨rows, rfl, hrest⟩ := ih h
      exact ⟨rows + 1, by omega, .more hpull hput hrest⟩

variable {put : Tuple → Engine → Outcome Engine Unit}

/-- The first pull does the work for all rows of the child. -/
theorem fed_of_pull (htask : op.task = some (child, put)) (hready : op.cursor = .ready)
    (hfirst : ¬ op.Performed) {row : Option Tuple} (h : op.pull n e = (.ok row, t)) :
    t.1.Performed ∧ ∃ count child', Fed put (child, e) count (child', t.2) ∧
      row = some (countRow count) := by
  rw [show op.pull n e = op.fetch n e from pullWith_eq_of_ready hready _ e] at h
  cases n with
  | zero => cases h
  | succ n =>
    cases op with
    | insert db tx table schema child done c =>
      obtain rfl : done = false := eq_false_of_ne_true hfirst
      cases htask
      rw [fetch] at h
      obtain ⟨count, ⟨child', e'⟩, hdrained, h⟩ := Outcome.andThen_eq_ok_iff.1 h
      cases h
      obtain ⟨rows, rfl, hfed⟩ := fed_of_drainWith (fun count row e => rfl) hdrained
      exact ⟨rfl, rows, child', hfed, by rw [Nat.zero_add]⟩
    | delete db tx child done c =>
      obtain rfl : done = false := eq_false_of_ne_true hfirst
      cases htask
      rw [fetch] at h
      obtain ⟨count, ⟨child', e'⟩, hdrained, h⟩ := Outcome.andThen_eq_ok_iff.1 h
      cases h
      obtain ⟨rows, rfl, hfed⟩ := fed_of_drainWith (fun count row e => rfl) hdrained
      exact ⟨rfl, rows, child', hfed, by rw [Nat.zero_add]⟩
    | _ => cases htask

theorem Performed.atEnd (h : op.Performed) : op.AtEnd := by
  cases op with
  | insert => exact h
  | delete => exact h
  | _ => exact h.elim

theorem performed_mapCursor (change : Cursor → Cursor) (op : Operator) :
    (op.mapCursor change).Performed ↔ op.Performed := by
  cases op <;> rfl

/-- No later pull does anything to the databases. -/
theorem Performed.pull (h : op.Performed) (n : Nat) (e : Engine) : (op.pull n e).2.2 = e := by
  rcases pullWith_cases (fetch n) op e with ⟨-, hpull⟩ | ⟨row, -, -, hpull⟩ | ⟨-, hpull⟩ <;>
    rw [Operator.pull, hpull]
  cases n with
  | zero => rfl
  | succ n =>
    cases op with
    | insert db tx table schema child done c =>
      obtain rfl : done = true := h
      rfl
    | delete db tx child done c =>
      obtain rfl : done = true := h
      rfl
    | _ => exact h.elim

/-- Calls of an insertion or a deletion that has done its work do nothing to the databases. -/
theorem Performed.calls (h : op.Performed) (n : Nat) (e : Engine) :
    (op.hasNext n e).2.2 = e ∧ (op.next n e).2.2 = e := by
  have hpull := h.pull n e
  unfold hasNext next
  generalize op.pull n e = o at hpull ⊢
  obtain ⟨cause | (_ | row), s⟩ := o <;> exact ⟨hpull, hpull⟩

/-- The count of an insertion or a deletion that was looked at is told once. -/
theorem Performed.asks_looked {others : Engine → Engine → Prop} {given : List (Option Tuple)}
    {row : Tuple} (hasks : Asks others s given t) (h : s.1.Performed)
    (hcursor : s.1.cursor = ⟨true, some row⟩) :
    t.1.Performed ∧ (given = [] ∨ ∃ k, given = some row :: List.replicate k none) := by
  have hclear : s.1.clear.cursor = .ready := by
    rw [clear, cursor_mapCursor, hcursor]
    rfl
  have hpull : ∀ (op : Operator) n e, op.cursor = ⟨true, some row⟩ →
      op.pull n e = (.ok (some row), op.clear, e) := by
    intro op n e hop
    rw [Operator.pull, pullWith, hop]
    rfl
  induction hasks with
  | done s => exact ⟨h, .inl rfl⟩
  | @look s s' t n more given hlook rest ih =>
    obtain ⟨found, op', hfound, -, hsame⟩ := pull_of_hasNext hlook
    obtain ⟨rfl, rfl⟩ : some row = found ∧ s.1.clear = op' := by
      have hboth := (hpull s.1 n s.2 hcursor).symm.trans hfound
      simp only [Prod.mk.injEq, Except.ok.injEq] at hboth
      exact ⟨hboth.1, hboth.2.1⟩
    have hself : s'.1 = s.1 := by
      rw [hsame, setPeeked, clear, mapCursor_mapCursor]
      exact mapCursor_eq_self (by rw [hcursor]; rfl)
    exact ih (hself ▸ h) (hself ▸ hcursor) (hself ▸ hclear)
  | @take s s' t n found given htake rest ih =>
    obtain ⟨rfl, rfl⟩ : some row = found ∧ (s.1.clear, s.2) = s' := by
      have hboth := (hpull s.1 n s.2 hcursor).symm.trans (next_eq_told_iff.1 htake)
      simpa using hboth
    have hperformed : s.1.clear.Performed := (performed_mapCursor _ _).2 h
    obtain ⟨htree, hnone⟩ := AtEnd.asks rest hperformed.atEnd hclear
    refine ⟨htree ▸ hperformed, .inr ⟨given.length, ?_⟩⟩
    rw [List.eq_replicate_iff.2 ⟨rfl, hnone⟩, List.length_replicate]
  | elsewhere _ _ ih => exact ih h hcursor hclear

/-- The work is done by the first call, and its count is told once. -/
theorem asks_of_task {others : Engine → Engine → Prop} {given : List (Option Tuple)}
    (hasks : Asks others s given t) (htask : s.1.task = some (child, put))
    (hready : s.1.cursor = .ready) (hfirst : ¬ s.1.Performed) :
    (given = [] ∧ t.1 = s.1) ∨ t.1.Performed ∧
      ∃ count k, given = [] ∨ given = some (countRow count) :: List.replicate k none := by
  induction hasks with
  | done s => exact .inl ⟨rfl, rfl⟩
  | @look s s' t n more given hlook rest ih =>
    obtain ⟨row, op', hpull, -, hsame⟩ := pull_of_hasNext hlook
    obtain ⟨hperformed, count, child', -, rfl⟩ := fed_of_pull htask hready hfirst hpull
    have hcursor : s'.1.cursor = ⟨true, some (countRow count)⟩ := by
      rw [hsame, setPeeked, cursor_mapCursor, show op'.cursor = .ready from ready_of_pull hpull]
      rfl
    have hlooked : s'.1.Performed := by
      rw [hsame]
      exact (performed_mapCursor _ _).2 hperformed
    obtain ⟨hlast, hgiven⟩ := Performed.asks_looked rest hlooked hcursor
    rcases hgiven with rfl | ⟨k, rfl⟩
    · exact .inr ⟨hlast, count, 0, .inl rfl⟩
    · exact .inr ⟨hlast, count, k, .inr rfl⟩
  | @take s s' t n row given htake rest ih =>
    have hpull := next_eq_told_iff.1 htake
    obtain ⟨hperformed, count, child', -, rfl⟩ := fed_of_pull htask hready hfirst hpull
    obtain ⟨htree, hnone⟩ := AtEnd.asks rest hperformed.atEnd (ready_of_pull hpull)
    refine .inr ⟨htree ▸ hperformed, count, given.length, .inr ?_⟩
    rw [List.eq_replicate_iff.2 ⟨rfl, hnone⟩, List.length_replicate]
  | elsewhere _ _ ih => exact ih htask hready hfirst

/-! ### Opening -/

/-- A scan that starts reads its first page. -/
theorem reads_scan_start (place : Scan) (e : Engine) (db : Nat) :
    e.Reads (e.setStore db (place.start (e.store db)).2.2) :=
  .of_store (place.acquires_start (e.store db)).reads

/-- Opening a tree only reads. -/
theorem reads_start (op : Operator) (e : Engine) : e.Reads (op.start e).2.2 := by
  have hgo : ∀ {α β : Type} {e : Engine} {o : Pulled α}
      {keep : Operator × Engine → Operator × Engine} {next : α → Operator × Engine → Pulled β},
      e.Reads o.2.2 → (∀ s, (keep s).2 = s.2) →
      (∀ a (s : Operator × Engine), s.2.Reads (next a s).2.2) →
      e.Reads (o.andThen keep next).2.2 := by
    intro α β e o keep next ho hkeep hnext
    refine Outcome.andThen_cases (P := fun o : Pulled β => e.Reads o.2.2) ?_ ?_
    · rintro cause s rfl
      exact (hkeep s).symm ▸ ho
    · rintro a s rfl
      exact ho.trans (hnext a s)
  induction op generalizing e with
  | rows => exact .refl e
  | scan db table label schema place c =>
    have hreads := reads_scan_start place e db
    unfold start
    generalize place.start (e.store db) = o at hreads ⊢
    obtain ⟨cause | u, place', s⟩ := o <;> exact hreads
  | filter p child c ih => exact hgo (ih e) (fun _ => rfl) fun _ s => .refl s.2
  | nestedLoop planned p left right schema current c ihl ihr =>
    exact hgo (ihl e) (fun _ => rfl) fun _ s => hgo (ihr s.2) (fun _ => rfl) fun _ s => .refl s.2
  | hashJoin planned p left right schema table pending c ihl ihr =>
    exact hgo (ihl e) (fun _ => rfl) fun _ s => hgo (ihr s.2) (fun _ => rfl) fun _ s => .refl s.2
  | aggregate column group fn child schema results c ih =>
    exact hgo (ih e) (fun _ => rfl) fun _ s => .refl s.2
  | insert db tx table tableSchema child done c ih =>
    exact hgo (ih e) (fun _ => rfl) fun _ s => .refl s.2
  | delete db tx child done c ih => exact hgo (ih e) (fun _ => rfl) fun _ s => .refl s.2

/-- An insertion or a deletion that is opened has its work before it, and its child is open. -/
theorem start_task (htask : op.task = some (child, put)) (hstart : op.start e = (.ok (), s)) :
    (∃ opened, child.start e = (.ok (), opened, s.2) ∧ s.1.task = some (opened, put)) ∧
      ¬ s.1.Performed ∧ s.1.cursor = op.cursor.setOpen true := by
  cases op with
  | insert db tx table schema child done c =>
    cases htask
    obtain ⟨u, ⟨opened, e'⟩, hchild, h⟩ := Outcome.andThen_eq_ok_iff.1 hstart
    cases h
    exact ⟨⟨opened, hchild, rfl⟩, Bool.false_ne_true, rfl⟩
  | delete db tx child done c =>
    cases htask
    obtain ⟨u, ⟨opened, e'⟩, hchild, h⟩ := Outcome.andThen_eq_ok_iff.1 hstart
    cases h
    exact ⟨⟨opened, hchild, rfl⟩, Bool.false_ne_true, rfl⟩
  | _ => cases htask

/-! ### Operators that are not open -/

/-- An operator was put together from its parts. -/
inductive New : Operator → Prop
  | rows (schema : Schema) (all : List Tuple) : New (ofRows schema all)
  | results {a : Aggregator} {op : Operator} (h : ofAggregator a = .ok op) : New op
  | scan {e : Engine} {db : Nat} {tx : TxId} {table : TableId} {label : String} {op : Operator}
      (h : ofTable e db tx table label = .ok op) : New op
  | named {e : Engine} {db : Nat} {tx : TxId} {table : TableId} {op : Operator}
      (h : ofNamedTable e db tx table = .ok op) : New op
  | filter (p : Predicate) (child : Operator) : New (filtered p child)
  | loop (p : JoinPredicate) (left right : Operator) : New (looped p left right)
  | hash (p : JoinPredicate) (left right : Operator) : New (hashed p left right)
  | join (p : JoinPredicate) (left right : Operator) : New (join p left right)
  | aggregate {child op : Operator} {column : Nat} {group : Option Nat} {fn : AggregateFunction}
      (h : aggregated child column group fn = .ok op) : New op
  | insert {e : Engine} {db : Nat} {tx : TxId} {table : TableId} {child op : Operator}
      (h : inserting e db tx table child = .ok op) : New op
  | delete (db : Nat) (tx : TxId) (child : Operator) : New (deleting db tx child)

/-- An operator was never opened, or was closed and not opened again. -/
inductive Shut : Operator → Prop
  | new {op : Operator} (h : New op) : Shut op
  | close (op : Operator) : Shut op.close
  | refused {op : Operator} {e : Engine} {cause : DbError} {s : Operator × Engine} (h : Shut op)
      (hstart : op.start e = (.error cause, s)) : Shut s.1
  | look {op : Operator} (h : Shut op) (n : Nat) (e : Engine) : Shut (op.hasNext n e).2.1
  | take {op : Operator} (h : Shut op) (n : Nat) (e : Engine) : Shut (op.next n e).2.1
  | rewind {op : Operator} (h : Shut op) (e : Engine) : Shut (op.rewind e).2.1
  | setChildren {op : Operator} (h : Shut op) (children : List Operator) :
    Shut (op.setChildren children)

theorem cursor_of_ofTable {db : Nat} {tx : TxId} {table : TableId} {label : String}
    (h : ofTable e db tx table label = .ok op) : op.cursor = {} := by
  obtain ⟨f, -, h⟩ := bind_eq_ok_iff.1 h
  cases h
  rfl

/-- An operator that is not open refuses. -/
theorem pull_of_closed (h : op.cursor.isOpen = false) (n : Nat) (e : Engine) :
    op.pull n e = (.error .operatorNotOpen, op, e) := by
  rw [pull, pullWith, h]
  rfl

theorem New.cursor_eq (h : op.New) : op.cursor = {} := by
  cases h with
  | rows => rfl
  | filter => rfl
  | loop => rfl
  | hash => rfl
  | join =>
    unfold Operator.join
    dsimp only
    split_ifs <;> rfl
  | delete => rfl
  | @results a op h =>
    unfold ofAggregator at h
    cases hrows : a.rows with
    | error cause =>
      rw [hrows] at h
      cases h
    | ok rows =>
      rw [hrows] at h
      cases h
      rfl
  | scan h => exact cursor_of_ofTable h
  | named h =>
    obtain ⟨name, -, h⟩ := bind_eq_ok_iff.1 h
    exact cursor_of_ofTable h
  | aggregate h =>
    obtain ⟨schema, -, h⟩ := bind_eq_ok_iff.1 h
    cases h
    rfl
  | insert h =>
    obtain ⟨schema, -, h⟩ := bind_eq_ok_iff.1 h
    dsimp only at h
    split_ifs at h
    · cases h
      rfl
    · cases h

/-- A tree that could not be opened is open as much as before. -/
theorem cursor_start (op : Operator) (e : Engine) :
    (op.start e).2.1.cursor = op.cursor ∨ ∃ u, (op.start e).1 = .ok u := by
  let Kept (o : Pulled Unit) : Prop := o.2.1.cursor = op.cursor ∨ ∃ u, o.1 = .ok u
  show Kept (op.start e)
  cases op with
  | rows => exact .inr ⟨(), rfl⟩
  | scan db table label schema place c =>
    unfold start
    generalize place.start (e.store db) = o
    obtain ⟨cause | u, place', t⟩ := o
    · exact .inl rfl
    · exact .inr ⟨(), rfl⟩
  | nestedLoop | hashJoin =>
    refine Outcome.andThen_cases (P := Kept) (fun _ _ _ => .inl rfl) fun _ _ _ => ?_
    exact Outcome.andThen_cases (P := Kept) (fun _ _ _ => .inl rfl) fun _ _ _ => .inr ⟨(), rfl⟩
  | filter | aggregate | insert | delete =>
    exact Outcome.andThen_cases (P := Kept) (fun _ _ _ => .inl rfl) fun _ _ _ => .inr ⟨(), rfl⟩

/-- Sending a tree back does not open it. -/
theorem cursor_rewind (op : Operator) (e : Engine) :
    (op.rewind e).2.1.cursor = op.cursor ∨ (op.rewind e).2.1.cursor = op.cursor.clear := by
  let Kept (o : Pulled Unit) : Prop :=
    o.2.1.cursor = op.cursor ∨ o.2.1.cursor = op.cursor.clear
  show Kept (op.rewind e)
  cases op with
  | rows => exact .inr rfl
  | scan db table label schema place c =>
    unfold rewind
    generalize place.rewind (e.store db) = o
    obtain ⟨cause | u, place', t⟩ := o
    · exact .inl rfl
    · exact .inr rfl
  | nestedLoop =>
    refine Outcome.andThen_cases (P := Kept) (fun _ _ _ => .inl rfl) fun _ _ _ => ?_
    exact Outcome.andThen_cases (P := Kept) (fun _ _ _ => .inl rfl) fun _ _ _ => .inr rfl
  | filter | hashJoin | aggregate | insert | delete =>
    exact Outcome.andThen_cases (P := Kept) (fun _ _ _ => .inl rfl) fun _ _ _ => .inr rfl

/-- Other children leave the cursor as it is. -/
theorem cursor_setChildren (op : Operator) (children : List Operator) :
    (op.setChildren children).cursor = op.cursor := by
  unfold setChildren
  split
  · rfl
  · rfl
  · rfl
  · split <;> rfl
  · rfl
  · rfl
  · rfl

theorem Shut.cursor_eq (h : op.Shut) : op.cursor = {} := by
  induction h with
  | new h => exact h.cursor_eq
  | close op => cases op <;> rfl
  | @refused op e cause s _ hstart ih =>
    rcases cursor_start op e with hcursor | ⟨u, hok⟩
    · rw [hstart] at hcursor
      exact hcursor.trans ih
    · rw [hstart] at hok
      cases hok
  | @look op _ n e ih =>
    have hpull : op.pull n e = (.error .operatorNotOpen, op, e) := pull_of_closed (by rw [ih]) n e
    rw [hasNext, hpull]
    exact ih
  | @take op _ n e ih =>
    have hpull : op.pull n e = (.error .operatorNotOpen, op, e) := pull_of_closed (by rw [ih]) n e
    rw [next, hpull]
    exact ih
  | @rewind op _ e ih =>
    rcases cursor_rewind op e with hcursor | hcursor <;> rw [hcursor, ih]
    rfl
  | setChildren _ children ih => exact (cursor_setChildren _ children).trans ih

theorem Shut.calls (h : op.Shut) (n : Nat) (e : Engine) :
    op.hasNext n e = (.error .operatorNotOpen, op, e) ∧
      op.next n e = (.error .operatorNotOpen, op, e) := by
  have hpull := op.pull_of_closed (by rw [h.cursor_eq]) n e
  exact ⟨by rw [hasNext, hpull]; rfl, by rw [next, hpull]; rfl⟩

/-! ### Looking -/

/-- After a call of `hasNext`, `next` tells a row exactly if one was promised, whatever others do to
the databases in between. -/
theorem next_iff_look {more : Bool} (h : s.1.hasNext n s.2 = (.ok more, t)) (e : Engine) :
    ∃ N, ∀ m, N ≤ m → (more = true ↔ ∃ row u, t.1.next m e = (.ok row, u)) := by
  rcases look_cases h with ⟨rfl, row, op', -, -, hkept⟩ | ⟨rfl, -, hend, hready⟩
  · exact ⟨0, fun m _ => ⟨fun _ => ⟨row, _, next_of_pull (hkept m e)⟩, fun _ => rfl⟩⟩
  · obtain ⟨N, hN⟩ := hend.exhausted hready e
    refine ⟨N, fun m hm => ⟨nofun, ?_⟩⟩
    rintro ⟨row, u, hrow⟩
    cases (hN m hm).2.symm.trans hrow

/-- When `hasNext` has found no row, or `next` has refused, there is none any more. -/
theorem atEnd_of_none (h : s.1.hasNext n s.2 = (.ok false, t) ∨
    s.1.next n s.2 = (.error .noSuchElement, t)) : t.1.AtEnd ∧ t.1.cursor = .ready := by
  rcases h with hlook | hrefused
  · rcases look_cases hlook with ⟨hmore, -⟩ | ⟨-, -, hend⟩
    · cases hmore
    · exact hend
  · have hnone : s.1.next n s.2 = (told none, t) := hrefused
    have hpull := next_eq_told_iff.1 hnone
    exact ⟨atEnd_of_pull hpull, ready_of_pull hpull⟩

/-- An insertion or a deletion that was opened does its work for all rows of its child at once. -/
structure WorksOnce (put : Tuple → Engine → Outcome Engine Unit) (opened : Operator)
    (s : Operator × Engine) : Prop where
  /-- The first pull does it, and tells the count of the rows. -/
  first : ∀ n e' row t, s.1.pull n e' = (.ok row, t) →
    ∃ count child', Fed put (opened, e') count (child', t.2) ∧ row = some (countRow count)
  /-- There is no other row, and no call does anything to the databases after that. -/
  later : ∀ others t given, Asks others s given t → (given = [] ∧ t.1 = s.1) ∨
    (∃ count k, given = [] ∨ given = some (countRow count) :: List.replicate k none) ∧
      ∀ n e', (t.1.hasNext n e').2.2 = e' ∧ (t.1.next n e').2.2 = e'

/-- What calls of `hasNext` and `next` come to, from an operator on. -/
structure OnlyLooks (s : Operator × Engine) : Prop where
  /-- Calls of `hasNext` can be left out, wherever they are made. -/
  left_out : ∀ t given, Asks (fun e e' => e' = e) s given t →
    ∃ t', Takes s given t' ∧ Looked t' t
  /-- So all patterns of calls tell the same rows. -/
  same_rows : ∀ t given t' given', Asks (fun e e' => e' = e) s given t →
    Asks (fun e e' => e' = e) s given' t' → given <+: given' ∨ given' <+: given
  /-- A tree of queries tells its rows in their order, while others may read along. -/
  rows_of_query : ∀ (e : Engine) (op : Operator) t given, op.Built e →
    (∀ db table, op.Scans db table → (e.store db).Current table) → op.start e = (.ok (), s) →
    Asks Engine.Reads s given t →
    given = (List.range given.length).map fun k => (op.answer e)[k]?
  /-- `hasNext` finds a row exactly if the next call of `next` tells one. -/
  promise : ∀ n more t, s.1.hasNext n s.2 = (.ok more, t) →
    ∀ e, ∃ N, ∀ m, N ≤ m → (more = true ↔ ∃ row u, t.1.next m e = (.ok row, u))
  /-- Where there is no row any more, there is none whatever others do, and calls change nothing. -/
  ended : ∀ n t, s.1.hasNext n s.2 = (.ok false, t) ∨ s.1.next n s.2 = (.error .noSuchElement, t) →
    t.1.Exhausted ∧ ∀ others u given, Asks others t given u → u.1 = t.1 ∧ ∀ row ∈ given, row = none
  /-- Opening an insertion or a deletion opens its child and does nothing else. -/
  work : ∀ (e : Engine) (op child : Operator) put, op.Shut → op.task = some (child, put) →
    op.start e = (.ok (), s) →
    e.Reads s.2 ∧ ∃ opened, child.start e = (.ok (), opened, s.2) ∧ WorksOnce put opened s
  /-- An operator that was never opened, or was closed, refuses, and nothing changes. -/
  shut : s.1.Shut → ∀ n, s.1.hasNext n s.2 = (.error .operatorNotOpen, s) ∧
    s.1.next n s.2 = (.error .operatorNotOpen, s)

/-- **Looking changes nothing**, wherever an operator is asked for its rows. -/
theorem hasNext_only_looks (s : Operator × Engine) : OnlyLooks s where
  left_out := fun t given hasks => hasks.takes (.inl rfl)
  same_rows := by
    intro t given t' given' hasks hasks'
    obtain ⟨last, htakes, -⟩ := hasks.takes (.inl rfl)
    obtain ⟨last', htakes', -⟩ := hasks'.takes (.inl rfl)
    exact htakes.prefix_or htakes'
  rows_of_query := by
    intro e op t given hbuilt hcurrent hstart hasks
    obtain ⟨hleft, hnow⟩ := (hbuilt.idle hcurrent).left hstart
    exact hleft.asks hasks (hnow ▸ lists_course e op)
  promise := fun n more t => next_iff_look
  ended := by
    intro n t hnone
    obtain ⟨hend, hready⟩ := atEnd_of_none hnone
    exact ⟨hend.exhausted hready, fun others u given hasks => AtEnd.asks hasks hend hready⟩
  work := by
    intro e op child put hshut htask hstart
    have hreads : e.Reads s.2 := by
      have hreads := reads_start op e
      rwa [hstart] at hreads
    obtain ⟨⟨opened, hchild, htask'⟩, hfirst, hcursor⟩ := start_task htask hstart
    have hready : s.1.cursor = .ready := by
      rw [hcursor, hshut.cursor_eq]
      rfl
    refine ⟨hreads, opened, hchild, fun n e' row t hpull => ?_, fun others t given hasks => ?_⟩
    · exact (fed_of_pull htask' hready hfirst hpull).2
    · rcases asks_of_task hasks htask' hready hfirst with hnothing | ⟨hperformed, hgiven⟩
      · exact .inl hnothing
      · exact .inr ⟨hgiven, hperformed.calls⟩
  shut := fun hshut n => hshut.calls n s.2

/-- The numbers 4 and 5 put into the table of numbers. -/
def insertNumbers : Operator :=
  insert 0 ⟨1⟩ Store.only Store.numbers
    (ofRows Store.numbers [Store.number 4, Store.number 5]) false {}

/-- Two numbers are inserted by a look, and their count is told as it is without the look; a join of
the numbers tells its first row after a look. -/
theorem insertNumbers_looked :
    let first := (insertNumbers.start someNumbers).2
    let looked := first.1.hasNext 20 first.2
    let taken := looked.2.1.next 20 looked.2.2
    let last := taken.2.1.hasNext 20 taken.2.2
    let direct := first.1.next 20 first.2
    let joined := (loopOverCounts.start someNumbers).2
    let seen := joined.1.hasNext 20 joined.2
    let told := seen.2.1.next 20 seen.2.2
    insertNumbers.Shut ∧ (insertNumbers.start someNumbers).1 = .ok () ∧ looked.1 = .ok true ∧
      taken.1 = .ok (countRow 2) ∧ last.1 = .ok false ∧ direct.1 = taken.1 ∧
      (∃ n row u, looked.2.1.next n someNumbers = (.ok row, u)) ∧
      (∃ count child', Fed (fun row e => e.run 0 fun s =>
          s.insertRow ⟨1⟩ Store.only { row.relabel Store.numbers with record := none })
        (ofRows Store.numbers [Store.number 4, Store.number 5] |>.setOpen true, first.2) count
        (child', direct.2.2)) ∧
      (∀ n e, (last.2.1.next n e).2.2 = e) ∧ last.2.1.Exhausted ∧
      insertNumbers.next 20 someNumbers = (.error .operatorNotOpen, insertNumbers, someNumbers) ∧
      told.1.toOption = (loopOverCounts.answer someNumbers)[0]? := by
  intro first looked taken last direct joined seen told
  have hshut : insertNumbers.Shut :=
    .new (.insert (show inserting someNumbers 0 ⟨1⟩ Store.only
      (ofRows Store.numbers [Store.number 4, Store.number 5]) = .ok insertNumbers from rfl))
  have hopened : (insertNumbers.start someNumbers).1 = .ok () := by decide +kernel
  have hlooked : looked.1 = .ok true := by decide +kernel
  have htaken : taken.1 = .ok (countRow 2) := by decide +kernel
  have hlast : last.1 = .ok false := by decide +kernel
  have hdirect : direct.1.toOption.isSome := by decide +kernel
  have hjoined : (loopOverCounts.start someNumbers).1 = .ok () := loopOverCounts_opened
  have hseen : seen.1 = .ok true := by decide +kernel
  have htold : told.1.toOption.isSome := by decide +kernel
  have hstart : insertNumbers.start someNumbers = (.ok (), first) := Prod.ext hopened rfl
  have hlook : first.1.hasNext 20 first.2 = (.ok true, looked.2) := Prod.ext hlooked rfl
  have htake : looked.2.1.next 20 looked.2.2 = (.ok (countRow 2), taken.2) := Prod.ext htaken rfl
  have hover : taken.2.1.hasNext 20 taken.2.2 = (.ok false, last.2) := Prod.ext hlast rfl
  have hstart' : loopOverCounts.start someNumbers = (.ok (), joined) := Prod.ext hjoined rfl
  have hlook' : joined.1.hasNext 20 joined.2 = (.ok true, seen.2) := Prod.ext hseen rfl
  have hdirect' : first.1.next 20 first.2 = direct := rfl
  have htold' : seen.2.1.next 20 seen.2.2 = told := rfl
  -- what each call came to is known, so that none of them has to be computed again
  clear_value told seen joined direct last taken looked first
  obtain ⟨row, hrow⟩ := exists_eq_ok hdirect
  obtain ⟨row', hrow'⟩ := exists_eq_ok htold
  have hasks : Asks (fun e e' => e' = e) first [some (countRow 2)] last.2 :=
    .look hlook (.take htake (.look hover (.done _)))
  have hasks' : Asks (fun e e' => e' = e) first [some row] direct.2 :=
    .take (hdirect'.trans (Prod.ext hrow rfl)) (.done _)
  have hasks'' : Asks Engine.Reads joined [some row'] told.2 :=
    .look hlook' (.take (htold'.trans (Prod.ext hrow' rfl)) (.done _))
  obtain rfl : row = countRow 2 := by
    rcases (hasNext_only_looks first).same_rows _ _ _ _ hasks hasks' with hprefix | hprefix
    · exact (Option.some.inj (List.cons_prefix_cons.1 hprefix).1).symm
    · exact Option.some.inj (List.cons_prefix_cons.1 hprefix).1
  obtain ⟨N, hN⟩ := (hasNext_only_looks first).promise 20 true looked.2 hlook someNumbers
  obtain ⟨hexhausted, -⟩ := (hasNext_only_looks taken.2).ended 20 last.2 (.inl hover)
  obtain ⟨-, child, hchild, hworks⟩ :=
    (hasNext_only_looks first).work someNumbers insertNumbers _ _ hshut rfl hstart
  obtain ⟨count, child', hfed, -⟩ := hworks.first 20 first.2 _ direct.2
    (pull_of_next (hdirect'.trans (Prod.ext hrow rfl)))
  obtain rfl : (ofRows Store.numbers [Store.number 4, Store.number 5]).setOpen true = child :=
    congrArg (·.2.1) hchild
  have hasks₂ := (hasNext_only_looks joined).rows_of_query someNumbers loopOverCounts told.2 _
    loopOverCounts_built loopOverCounts_current hstart' hasks''
  refine ⟨hshut, hopened, hlooked, htaken, hlast, hrow.trans htaken.symm,
    ⟨N, (hN N le_rfl).1 rfl⟩, ⟨count, child', hfed⟩, fun n e => ?_, hexhausted,
    ((hasNext_only_looks (insertNumbers, someNumbers)).shut hshut 20).2, ?_⟩
  · rcases hworks.later _ last.2 _ hasks with ⟨hnone, -⟩ | ⟨-, hcalls⟩
    · cases hnone
    · exact (hcalls n e).2
  · rw [hrow']
    exact List.singleton_inj.1 hasks₂

end Operator

end Rowstore
