import Mathlib
import Rowstore.Proofs.Query.Ending
import Rowstore.Proofs.Query.Fresh
import Rowstore.Proofs.Store.Moves

/-!
# What pulls leave as it is

An operator in any state whatever, open or closed, with children that fail or have been changed, is
pulled or sent back, and the databases do with it what they want. Some things are always so:

* The operator is the same one, somewhere else in its rows: `fresh_start`, `fresh_rewind`, and
  `Moves.fresh_eq` of a pull. A pull leaves the cursor to those who look at rows.
* It does not fail for want of a row: it gives none then.
* After that it is at its end, `Operator.AtEnd`, and it stays there. Pulls find no row and change
  nothing then, whatever has become of the databases: `Operator.AtEnd.fetch`.
-/

namespace Rowstore

namespace Engine

/-- Putting back a store that was not changed changes nothing. -/
theorem setStore_store (e : Engine) (db : Nat) : e.setStore db (e.store db) = e := by
  have hset : e.databases.set db (e.databases[db]?.getD (Database.new {})) = e.databases := by
    cases hdb : e.databases[db]? with
    | none => exact List.set_eq_of_length_le (List.getElem?_eq_none_iff.1 hdb)
    | some database =>
      rw [Option.getD_some]
      obtain ⟨hlt, rfl⟩ := List.getElem?_eq_some_iff.1 hdb
      exact List.set_getElem_self hlt
  unfold setStore store
  rw [hset]

end Engine

/-! ### Scans -/

namespace Scan

variable {scan scan' : Scan} {s s' : Store}

theorem fresh_start (scan : Scan) (s : Store) : (scan.start s).2.1.fresh = scan.fresh := by
  unfold start
  split
  · rfl
  · rename_i count _
    dsimp only
    split_ifs
    · rfl
    · generalize load { scan with page := 0, pageCount := count } s 0 = o
      obtain ⟨cause | rows, t⟩ := o <;> rfl

theorem fresh_seek (scan : Scan) (s : Store) (pages : Nat) :
    (scan.seek s pages).2.1.fresh = scan.fresh := by
  induction pages generalizing scan s with
  | zero => rfl
  | succ pages ih =>
    unfold seek
    dsimp only
    generalize load { scan with page := scan.page + 1 } s (scan.page + 1) = o
    obtain ⟨cause | rows, t⟩ := o
    · rfl
    · rw [Outcome.andThen_ok]
      split_ifs
      · exact ih _ t
      · rfl

theorem fresh_hasNext (scan : Scan) (s : Store) : (scan.hasNext s).2.1.fresh = scan.fresh := by
  unfold hasNext
  split
  · rfl
  · rfl
  · exact scan.fresh_seek s _

/-- A scan is closed, or has come to the end of its last page. -/
def AtEnd (scan : Scan) : Prop :=
  scan.rest = none ∨ scan.rest = some [] ∧ scan.pageCount ≤ scan.page + 1

theorem AtEnd.hasNext (h : scan.AtEnd) (s : Store) : scan.hasNext s = (.ok false, scan, s) := by
  unfold Scan.hasNext
  rcases h with hrest | ⟨hrest, hpage⟩
  · rw [hrest]
  · rw [hrest]
    dsimp only
    rw [Nat.sub_eq_zero_of_le hpage]
    rfl

/-- A scan that is not at its end after a search has found a row. -/
theorem seek_cases {pages : Nat} {more : Bool} (h : scan.seek s pages = (.ok more, scan', s'))
    (hrest : scan.rest = some []) (hpages : scan.pageCount ≤ scan.page + 1 + pages) :
    (more = false ∧ scan'.AtEnd) ∨ (more = true ∧ ∃ row rest, scan'.rest = some (row :: rest)) := by
  induction pages generalizing scan s with
  | zero =>
    cases h
    exact .inl ⟨rfl, .inr ⟨hrest, hpages⟩⟩
  | succ pages ih =>
    unfold seek at h
    obtain ⟨rows, t, -, h⟩ := Outcome.andThen_eq_ok_iff.1 h
    dsimp only at h
    split_ifs at h with hrows
    · obtain rfl : rows = [] := List.isEmpty_iff.1 hrows
      exact ih h rfl (by dsimp only; omega)
    · cases h
      obtain ⟨row, rest, rfl⟩ := List.exists_cons_of_ne_nil
        fun hnil => hrows (List.isEmpty_iff.2 hnil)
      exact .inr ⟨rfl, row, rest, rfl⟩

/-- A scan that has no other row is at its end, and one that has shows it. -/
theorem hasNext_cases {more : Bool} (h : scan.hasNext s = (.ok more, scan', s')) :
    (more = false ∧ scan'.AtEnd) ∨ (more = true ∧ ∃ row rest, scan'.rest = some (row :: rest)) := by
  unfold Scan.hasNext at h
  split at h
  · rename_i hrest
    cases h
    exact .inl ⟨rfl, .inl hrest⟩
  · rename_i row rest hrest
    cases h
    exact .inr ⟨rfl, row, rest, hrest⟩
  · rename_i hrest
    exact seek_cases h hrest (by omega)

end Scan

namespace Operator

variable {e e' : Engine} {op op' child left right : Operator} {s t : Operator × Engine} {n : Nat}

/-! ### The end of the rows -/

/-- An operator has given its last row. -/
def AtEnd : Operator → Prop
  | rows _ _ rest _ => rest = []
  | scan _ _ _ _ place _ => place.AtEnd
  | filter _ child _ => child.cursor = .ready ∧ child.AtEnd
  | nestedLoop _ _ left _ _ current _ => current = none ∧ left.cursor = .ready ∧ left.AtEnd
  | hashJoin _ _ _ right _ table pending _ =>
    table.isSome ∧ pending = [] ∧ right.cursor = .ready ∧ right.AtEnd
  | aggregate _ _ _ _ _ results _ => results = some []
  | insert _ _ _ _ _ done _ | delete _ _ _ done _ => done = true

/-- A pull of an operator is refused, gives the row that was looked at, or makes the next one. -/
theorem pullWith_cases (f : Operator → Engine → Pulled (Option Tuple)) (op : Operator)
    (e : Engine) :
    (op.cursor.isOpen = false ∧ pullWith f op e = (.error .operatorNotOpen, op, e)) ∨
      (∃ row, op.cursor.isOpen = true ∧ op.cursor.peeked = some row ∧
        pullWith f op e = (.ok (some row), op.clear, e)) ∨
      (op.cursor = .ready ∧ pullWith f op e = f op e) := by
  unfold pullWith
  generalize op.cursor = c
  obtain ⟨_ | _, _ | row⟩ := c
  · exact .inl ⟨rfl, rfl⟩
  · exact .inl ⟨rfl, rfl⟩
  · exact .inr (.inr ⟨rfl, rfl⟩)
  · exact .inr (.inl ⟨row, rfl, rfl, rfl⟩)

/-- An operator that is open, with no row looked at, makes the next one when it is pulled. -/
theorem pullWith_eq_of_ready (h : op.cursor = .ready)
    (f : Operator → Engine → Pulled (Option Tuple)) (e : Engine) : pullWith f op e = f op e := by
  unfold pullWith
  rw [h]
  rfl

/-- At its end an operator finds no row and changes nothing, whatever the databases are. -/
theorem AtEnd.fetch (h : op.AtEnd) (e : Engine) :
    Settles (fun n => op.fetch n e) (· = (.ok none, op, e)) := by
  have hpull : ∀ {op : Operator}, op.cursor = .ready →
      Settles (fun n => op.fetch n e) (· = (.ok none, op, e)) →
      Settles (fun n => pullWith (Operator.fetch n) op e) (· = (.ok none, op, e)) := by
    intro op hready hsettles
    simpa only [pullWith_eq_of_ready hready] using hsettles
  induction op with
  | rows schema all rest c =>
    obtain rfl : rest = [] := h
    exact .of_succ (.ok rfl)
  | scan db table label schema place c =>
    refine .of_succ ?_
    simp only [Operator.fetch, Scan.AtEnd.hasNext h, Engine.setStore_store]
    exact .ok rfl
  | filter p child c ih =>
    refine .of_succ ?_
    simp only [Operator.fetch]
    exact (hpull h.1 (ih h.2)).andThen_of_ok (.ok rfl)
  | nestedLoop planned p left right schema current c ihl ihr =>
    obtain ⟨rfl, hready, hend⟩ := h
    refine .of_succ ?_
    simp only [Operator.fetch]
    exact (hpull hready (ihl hend)).andThen_of_ok (.ok rfl)
  | hashJoin planned p left right schema table pending c ihl ihr =>
    obtain ⟨htable, rfl, hready, hend⟩ := h
    obtain ⟨table, rfl⟩ := Option.isSome_iff_exists.1 htable
    refine .of_succ ?_
    simp only [Operator.fetch]
    exact (hpull hready (ihr hend)).andThen_of_ok (.ok rfl)
  | aggregate column group fn child schema results c =>
    obtain rfl : results = some [] := h
    exact .of_succ (.ok rfl)
  | insert db tx table tableSchema child done c =>
    obtain rfl : done = true := h
    exact .of_succ (.ok rfl)
  | delete db tx child done c =>
    obtain rfl : done = true := h
    exact .of_succ (.ok rfl)

/-! ### Opening and rewinding -/

theorem fresh_scan_congr {db : Nat} {table : TableId} {label : String} {schema : Schema}
    {place place' : Scan} {c c' : Cursor} (h : place'.fresh = place.fresh) :
    (scan db table label schema place' c').fresh = (scan db table label schema place c).fresh :=
  congrArg (scan db table label schema · {}) h

/-- Going on from a child that is still the same keeps what goes on from any state of it. -/
theorem fresh_andThen {α β : Type} {o : Pulled α} {keep : Operator × Engine → Operator × Engine}
    {next : α → Operator × Engine → Pulled β} (ho : o.2.1.fresh = child.fresh)
    (hkeep : ∀ s : Operator × Engine, s.1.fresh = child.fresh → (keep s).1.fresh = op.fresh)
    (hnext : ∀ a s, s.1.fresh = child.fresh → (next a s).2.1.fresh = op.fresh) :
    (o.andThen keep next).2.1.fresh = op.fresh := by
  obtain ⟨cause | a, s⟩ := o
  · exact hkeep s ho
  · exact hnext a s ho

/-- A tree that is opened is the same one. -/
theorem fresh_start (op : Operator) (e : Engine) : (op.start e).2.1.fresh = op.fresh := by
  induction op generalizing e with
  | rows => rfl
  | scan db table label schema place c =>
    have hplace := place.fresh_start (e.store db)
    unfold start
    generalize place.start (e.store db) = o at hplace ⊢
    obtain ⟨cause | u, place', s⟩ := o
    · exact fresh_scan_congr hplace
    · exact fresh_scan_congr hplace
  | filter p child c ih =>
    exact fresh_andThen (ih e) (fun s hs => congrArg (filter p · {}) hs)
      fun _ s hs => congrArg (filter p · {}) hs
  | nestedLoop planned p left right schema current c ihl ihr =>
    refine fresh_andThen (ihl e)
      (fun s hs => congrArg (nestedLoop planned p · right.fresh schema none {}) hs) fun _ s hl => ?_
    refine fresh_andThen (ihr s.2) (fun s hr => ?_) fun _ s hr => ?_ <;>
      exact congrArg₂ (nestedLoop planned p · · schema none {}) hl hr
  | hashJoin planned p left right schema table pending c ihl ihr =>
    refine fresh_andThen (ihl e)
      (fun s hs => congrArg (hashJoin planned p · right.fresh schema none [] {}) hs) fun _ s hl => ?_
    refine fresh_andThen (ihr s.2) (fun s hr => ?_) fun _ s hr => ?_ <;>
      exact congrArg₂ (hashJoin planned p · · schema none [] {}) hl hr
  | aggregate column group fn child schema results c ih =>
    exact fresh_andThen (ih e) (fun s hs => congrArg (aggregate column group fn · schema none {}) hs)
      fun _ s hs => congrArg (aggregate column group fn · schema none {}) hs
  | insert db tx table tableSchema child done c ih =>
    exact fresh_andThen (ih e) (fun s hs => congrArg (insert db tx table tableSchema · false {}) hs)
      fun _ s hs => congrArg (insert db tx table tableSchema · false {}) hs
  | delete db tx child done c ih =>
    exact fresh_andThen (ih e) (fun s hs => congrArg (delete db tx · false {}) hs)
      fun _ s hs => congrArg (delete db tx · false {}) hs

/-- A tree that is sent back is the same one. -/
theorem fresh_rewind (op : Operator) (e : Engine) : (op.rewind e).2.1.fresh = op.fresh := by
  induction op generalizing e with
  | rows => rfl
  | scan db table label schema place c =>
    have hplace := place.close.fresh_start (e.store db)
    unfold rewind Scan.rewind
    generalize place.close.start (e.store db) = o at hplace ⊢
    obtain ⟨cause | u, place', s⟩ := o
    · exact fresh_scan_congr hplace
    · exact fresh_scan_congr hplace
  | filter p child c ih =>
    exact fresh_andThen (ih e) (fun s hs => congrArg (filter p · {}) hs)
      fun _ s hs => congrArg (filter p · {}) hs
  | nestedLoop planned p left right schema current c ihl ihr =>
    refine fresh_andThen (ihl e)
      (fun s hs => congrArg (nestedLoop planned p · right.fresh schema none {}) hs) fun _ s hl => ?_
    refine fresh_andThen (ihr s.2) (fun s hr => ?_) fun _ s hr => ?_ <;>
      exact congrArg₂ (nestedLoop planned p · · schema none {}) hl hr
  | hashJoin planned p left right schema table pending c ihl ihr =>
    exact fresh_andThen (ihr e)
      (fun s hs => congrArg (hashJoin planned p left.fresh · schema none [] {}) hs)
      fun _ s hs => congrArg (hashJoin planned p left.fresh · schema none [] {}) hs
  | aggregate column group fn child schema results c ih =>
    exact fresh_andThen (ih e) (fun s hs => congrArg (aggregate column group fn · schema none {}) hs)
      fun _ s hs => congrArg (aggregate column group fn · schema none {}) hs
  | insert db tx table tableSchema child done c ih =>
    exact fresh_andThen (ih e) (fun s hs => congrArg (insert db tx table tableSchema · false {}) hs)
      fun _ s hs => congrArg (insert db tx table tableSchema · false {}) hs
  | delete db tx child done c ih =>
    exact fresh_andThen (ih e) (fun s hs => congrArg (delete db tx · false {}) hs)
      fun _ s hs => congrArg (delete db tx · false {}) hs

theorem fresh_close (op : Operator) : op.close.fresh = op.fresh := by
  induction op with
  | rows => rfl
  | scan => rfl
  | filter p child c ih => exact congrArg (filter p · {}) ih
  | nestedLoop planned p left right schema current c ihl ihr =>
    exact congrArg₂ (nestedLoop planned p · · schema none {}) ihl ihr
  | hashJoin planned p left right schema table pending c ihl ihr =>
    exact congrArg₂ (hashJoin planned p · · schema none [] {}) ihl ihr
  | aggregate column group fn child schema results c ih =>
    exact congrArg (aggregate column group fn · schema none {}) ih
  | insert db tx table tableSchema child done c ih =>
    exact congrArg (insert db tx table tableSchema · false {}) ih
  | delete db tx child done c ih => exact congrArg (delete db tx · false {}) ih

/-- A tree that cannot be sent back has a page that cannot be had. -/
theorem rewind_fails (op : Operator) (e : Engine) :
    FailsOnly DbError.isPaging (op.rewind e).1 := by
  induction op generalizing e with
  | rows => exact .ok ()
  | scan db table label schema place c =>
    have hplace := place.close.start_fails (e.store db)
    unfold rewind Scan.rewind
    generalize place.close.start (e.store db) = o at hplace ⊢
    obtain ⟨cause | u, place', s⟩ := o
    · exact hplace
    · exact .ok ()
  | filter p child c ih => exact Outcome.andThen_fails (ih e) fun _ _ => .ok ()
  | nestedLoop planned p left right schema current c ihl ihr =>
    exact Outcome.andThen_fails (ihl e) fun _ s =>
      Outcome.andThen_fails (ihr s.2) fun _ _ => .ok ()
  | hashJoin planned p left right schema table pending c ihl ihr =>
    exact Outcome.andThen_fails (ihr e) fun _ _ => .ok ()
  | aggregate column group fn child schema results c ih =>
    exact Outcome.andThen_fails (ih e) fun _ _ => .ok ()
  | insert db tx table tableSchema child done c ih =>
    exact Outcome.andThen_fails (ih e) fun _ _ => .ok ()
  | delete db tx child done c ih => exact Outcome.andThen_fails (ih e) fun _ _ => .ok ()

/-! ### Pulling -/

/-- What it comes to that an operator makes its next row. -/
structure Made (op : Operator) (o : Pulled (Option Tuple)) : Prop where
  fresh_eq : o.2.1.fresh = op.fresh
  cursor_eq : o.2.1.cursor = op.cursor
  fails : o.1 ≠ .error .noSuchElement
  ended : o.1 = .ok none → o.2.1.AtEnd

/-- What a pull behind the cursor comes to. -/
structure Handed (op : Operator) (o : Pulled (Option Tuple)) : Prop where
  fresh_eq : o.2.1.fresh = op.fresh
  ready : ∀ {row}, o.1 = .ok row → op.cursor.isOpen = true ∧ o.2.1.cursor = .ready
  fails : o.1 ≠ .error .noSuchElement
  ended : o.1 = .ok none → o.2.1.AtEnd

theorem Made.handed {f : Operator → Engine → Pulled (Option Tuple)}
    (h : ∀ (op : Operator) e, op.Made (f op e)) (op : Operator) (e : Engine) :
    op.Handed (pullWith f op e) := by
  rcases pullWith_cases f op e with ⟨-, hpull⟩ | ⟨row, hopen, -, hpull⟩ | ⟨hready, hpull⟩ <;>
    rw [hpull]
  · exact ⟨rfl, nofun, nofun, nofun⟩
  · refine ⟨by cases op <;> rfl, fun _ => ⟨hopen, ?_⟩, nofun, nofun⟩
    rw [clear, cursor_mapCursor, Cursor.clear, hopen]
    rfl
  · have hmade := h op e
    refine ⟨hmade.fresh_eq, fun _ => ⟨by rw [hready]; rfl, hmade.cursor_eq.trans hready⟩,
      hmade.fails, hmade.ended⟩

section

variable {σ : Type} {pull : Operator → Engine → Pulled (Option Tuple)}
  {take : σ → Tuple → Engine → Outcome Engine σ}

/-- No row is taken from an operator that fails. -/
theorem drainWith_of_error {cause : DbError} (h : pull op e = (.error cause, s)) (steps : Nat)
    (state : σ) : drainWith pull take (steps + 1) state op e = (.error cause, s) := by
  rw [drainWith, h]
  rfl

/-- All rows have been taken from an operator that has none. -/
theorem drainWith_of_none (h : pull op e = (.ok none, s)) (steps : Nat) (state : σ) :
    drainWith pull take (steps + 1) state op e = (.ok state, s) := by
  rw [drainWith, h]
  rfl

/-- A row is taken from an operator, and then the rows that it has left. -/
theorem drainWith_of_row {row : Tuple} (h : pull op e = (.ok (some row), s)) (steps : Nat)
    (state : σ) :
    drainWith pull take (steps + 1) state op e =
      (take state row s.2).andThen (fun e => (s.1, e)) fun state e =>
        drainWith pull take steps state s.1 e := by
  rw [drainWith, h]
  rfl

end

/-- Rows that are taken from an operator one after another leave it the same one. -/
theorem Handed.drain {σ : Type} {pull : Operator → Engine → Pulled (Option Tuple)}
    (h : ∀ (op : Operator) e, op.Handed (pull op e)) (take : σ → Tuple → Engine → Outcome Engine σ)
    (htake : ∀ state row e, (take state row e).1 ≠ .error .noSuchElement) (m : Nat) (state : σ)
    (op : Operator) (e : Engine) :
    (drainWith pull take m state op e).2.1.fresh = op.fresh ∧
      (drainWith pull take m state op e).1 ≠ .error .noSuchElement := by
  induction m generalizing state op e with
  | zero => exact ⟨rfl, nofun⟩
  | succ m ih =>
    have hpull := h op e
    unfold drainWith
    generalize pull op e = o at hpull ⊢
    obtain ⟨cause | (_ | row), op', e'⟩ := o
    · exact ⟨hpull.fresh_eq, fun hcause => hpull.fails (by cases hcause; rfl)⟩
    · exact ⟨hpull.fresh_eq, by simp⟩
    · have hrow := htake state row e'
      rw [Outcome.andThen_ok]
      dsimp only
      generalize take state row e' = o at hrow ⊢
      obtain ⟨cause | state', e''⟩ := o
      · exact ⟨hpull.fresh_eq, fun hcause => hrow (by cases hcause; rfl)⟩
      · obtain ⟨hfresh, hfails⟩ := ih state' op' e''
        exact ⟨hfresh.trans hpull.fresh_eq, hfails⟩

theorem Made.failed {cause : DbError} (hfresh : s.1.fresh = op.fresh)
    (hcursor : s.1.cursor = op.cursor) (hcause : cause ≠ .noSuchElement) :
    op.Made (.error cause, s) :=
  ⟨hfresh, hcursor, fun h => hcause (Except.error.inj h), nofun⟩

theorem Made.gave {row : Tuple} (hfresh : s.1.fresh = op.fresh)
    (hcursor : s.1.cursor = op.cursor) : op.Made (.ok (some row), s) :=
  ⟨hfresh, hcursor, nofun, nofun⟩

theorem Made.gave_none (hfresh : s.1.fresh = op.fresh) (hcursor : s.1.cursor = op.cursor)
    (hend : s.1.AtEnd) : op.Made (.ok none, s) :=
  ⟨hfresh, hcursor, nofun, fun _ => hend⟩

/-- What an operator makes after it has gone on is what it makes. -/
theorem Made.of_same {o : Pulled (Option Tuple)} (h : op'.Made o) (hfresh : op'.fresh = op.fresh)
    (hcursor : op'.cursor = op.cursor) : op.Made o :=
  ⟨h.fresh_eq.trans hfresh, h.cursor_eq.trans hcursor, h.fails, h.ended⟩

theorem ne_noSuchElement {α : Type} {x : Except DbError α} (h : FailsOnly DbError.isInner x) :
    x ≠ .error .noSuchElement := fun hx => Bool.noConfusion (h _ hx)

theorem ofExcept_ne {σ α : Type} {state : σ} {x : Except DbError (α × σ)}
    (h : FailsOnly DbError.isInner x) : (Outcome.ofExcept state x).1 ≠ .error .noSuchElement := by
  cases x with
  | ok result => exact nofun
  | error cause => exact fun hcause => ne_noSuchElement h (by cases hcause; rfl)

/-! ### One step more -/

section Steps

variable {p : Predicate} {jp : JoinPredicate} {planned : Bool} {schema tableSchema : Schema}
  {c : Cursor} {db column : Nat} {group : Option Nat} {fn : AggregateFunction} {tx : TxId}
  {table : TableId}

theorem made_scan (n : Nat) (label : String) (place : Scan) (e : Engine) :
    (scan db table label schema place c).Made
      ((scan db table label schema place c).fetch (n + 1) e) := by
  have hplace := place.fresh_hasNext (e.store db)
  have hfails := place.hasNext_fails (e.store db)
  rw [fetch]
  cases hmore : place.hasNext (e.store db) with
  | mk result state =>
    obtain ⟨place', s⟩ := state
    rw [hmore] at hplace hfails
    cases result with
    | error cause =>
      refine .failed (fresh_scan_congr hplace) rfl ?_
      rintro rfl
      exact Bool.noConfusion (hfails _ rfl)
    | ok more =>
      rcases Scan.hasNext_cases hmore with ⟨rfl, hend⟩ | ⟨rfl, row, rest, hrest⟩
      · exact .gave_none (fresh_scan_congr hplace) rfl hend
      · simp only [Scan.next_of_rest hrest]
        exact .gave (fresh_scan_congr hplace) rfl

variable (ih : ∀ (op : Operator) e, op.Made (op.fetch n e))

include ih

theorem made_filter (child : Operator) (e : Engine) :
    (filter p child c).Made ((filter p child c).fetch (n + 1) e) := by
  have hchild := Made.handed ih child e
  rw [fetch]
  generalize pullWith (fetch n) child e = o at hchild ⊢
  have hsame : (filter p o.2.1 c).fresh = (filter p child c).fresh :=
    congrArg (filter p · {}) hchild.fresh_eq
  obtain ⟨cause | (_ | row), child', e'⟩ := o
  · exact .failed hsame rfl fun h => hchild.fails (congrArg _ h)
  · exact .gave_none hsame rfl ⟨(hchild.ready rfl).2, hchild.ended rfl⟩
  · rw [Outcome.andThen_ok]
    dsimp only
    cases hholds : p.holds row with
    | error cause =>
      exact .failed hsame rfl fun h =>
        ne_noSuchElement (p.holds_fails row).proper.inner (h ▸ hholds)
    | ok holds =>
      cases holds with
      | true => exact .gave hsame rfl
      | false => exact (ih _ e').of_same hsame rfl

theorem made_loop_none (left right : Operator) (e : Engine) :
    (nestedLoop planned jp left right schema none c).Made
      ((nestedLoop planned jp left right schema none c).fetch (n + 1) e) := by
  have hleft := Made.handed ih left e
  rw [fetch]
  generalize pullWith (fetch n) left e = o at hleft ⊢
  have hsame : (nestedLoop planned jp o.2.1 right schema none c).fresh =
      (nestedLoop planned jp left right schema none c).fresh :=
    congrArg (nestedLoop planned jp · right.fresh schema none {}) hleft.fresh_eq
  obtain ⟨cause | (_ | row), left', e'⟩ := o
  · exact .failed hsame rfl fun h => hleft.fails (congrArg _ h)
  · exact .gave_none hsame rfl ⟨rfl, (hleft.ready rfl).2, hleft.ended rfl⟩
  · exact (ih _ e').of_same hsame rfl

/-- When there is no right row left, the right child goes back to its start. -/
theorem made_loop_some (left right : Operator) (l : Tuple) (e : Engine) :
    (nestedLoop planned jp left right schema (some l) c).Made
      ((nestedLoop planned jp left right schema (some l) c).fetch (n + 1) e) := by
  have hright := Made.handed ih right e
  rw [fetch]
  generalize pullWith (fetch n) right e = o at hright ⊢
  have hsame : (nestedLoop planned jp left o.2.1 schema (some l) c).fresh =
      (nestedLoop planned jp left right schema (some l) c).fresh :=
    congrArg (nestedLoop planned jp left.fresh · schema none {}) hright.fresh_eq
  obtain ⟨cause | (_ | row), right', e'⟩ := o
  · exact .failed hsame rfl fun h => hright.fails (congrArg _ h)
  · have hfresh := right'.fresh_rewind e'
    have hfails := right'.rewind_fails e'
    rw [Outcome.andThen_ok]
    dsimp only
    generalize right'.rewind e' = o at hfresh hfails ⊢
    have hagain : (nestedLoop planned jp left o.2.1 schema none c).fresh =
        (nestedLoop planned jp left right schema (some l) c).fresh :=
      (congrArg (nestedLoop planned jp left.fresh · schema none {}) hfresh).trans hsame
    obtain ⟨cause | u, right'', e''⟩ := o
    · exact .failed hagain rfl fun h => Bool.noConfusion (hfails _ (congrArg _ h))
    · exact (ih _ e'').of_same hagain rfl
  · rw [Outcome.andThen_ok]
    dsimp only
    cases hholds : jp.holds l row with
    | error cause =>
      exact .failed hsame rfl fun h =>
        ne_noSuchElement (jp.holds_fails l row).proper.inner (h ▸ hholds)
    | ok holds =>
      cases holds with
      | true => exact .gave hsame rfl
      | false => exact (ih _ e').of_same hsame rfl

theorem made_hash_none (left right : Operator) (pending : List Tuple) (e : Engine) :
    (hashJoin planned jp left right schema none pending c).Made
      ((hashJoin planned jp left right schema none pending c).fetch (n + 1) e) := by
  obtain ⟨hfresh, hfails⟩ := Handed.drain (Made.handed ih) (takeKeyed jp.left)
    (fun _ row _ => ofExcept_ne ((row.field_fails jp.left).proper.inner.map _)) n [] left e
  rw [fetch]
  generalize drainWith (pullWith (fetch n)) (takeKeyed jp.left) n [] left e = o at hfresh hfails ⊢
  have hsame : ∀ table, (hashJoin planned jp o.2.1 right schema table pending c).fresh =
      (hashJoin planned jp left right schema none pending c).fresh := fun _ =>
    congrArg (hashJoin planned jp · right.fresh schema none [] {}) hfresh
  obtain ⟨cause | table, left', e'⟩ := o
  · exact .failed (hsame none) rfl fun h => hfails (congrArg _ h)
  · exact (ih _ e').of_same (hsame (some table)) rfl

theorem made_hash_some (left right : Operator) (table : List (Value × Tuple))
    (pending : List Tuple) (e : Engine) :
    (hashJoin planned jp left right schema (some table) pending c).Made
      ((hashJoin planned jp left right schema (some table) pending c).fetch (n + 1) e) := by
  cases pending with
  | cons row pending => exact .gave rfl rfl
  | nil =>
    have hright := Made.handed ih right e
    rw [fetch]
    generalize pullWith (fetch n) right e = o at hright ⊢
    have hsame : ∀ pending,
        (hashJoin planned jp left o.2.1 schema (some table) pending c).fresh =
          (hashJoin planned jp left right schema (some table) [] c).fresh := fun _ =>
      congrArg (hashJoin planned jp left.fresh · schema none [] {}) hright.fresh_eq
    obtain ⟨cause | (_ | probe), right', e'⟩ := o
    · exact .failed (hsame []) rfl fun h => hright.fails (congrArg _ h)
    · exact .gave_none (hsame []) rfl ⟨rfl, rfl, (hright.ready rfl).2, hright.ended rfl⟩
    · rw [Outcome.andThen_ok]
      dsimp only
      cases hkey : probe.field jp.right with
      | error cause =>
        exact .failed (hsame []) rfl
          fun h => ne_noSuchElement (probe.field_fails jp.right).proper.inner (h ▸ hkey)
      | ok key => exact (ih _ e').of_same (hsame _) rfl

theorem made_aggregate_none (child : Operator) (e : Engine) :
    (aggregate column group fn child schema none c).Made
      ((aggregate column group fn child schema none c).fetch (n + 1) e) := by
  rw [fetch]
  cases hnew : newAggregator child.schema column group fn with
  | error cause =>
    exact .failed rfl rfl
      fun h => ne_noSuchElement (newAggregator_fails _ column group fn).proper.inner (h ▸ hnew)
  | ok a =>
    obtain ⟨hfresh, hfails⟩ := Handed.drain (Made.handed ih) takeSummary
      (fun a row _ => ofExcept_ne ((a.merge_fails row).proper.inner.map _)) n a child e
    dsimp only
    generalize drainWith (pullWith (fetch n)) takeSummary n a child e = o at hfresh hfails ⊢
    have hsame : ∀ results, (aggregate column group fn o.2.1 schema results c).fresh =
        (aggregate column group fn child schema none c).fresh := fun _ =>
      congrArg (aggregate column group fn · schema none {}) hfresh
    obtain ⟨cause | a', child', e'⟩ := o
    · exact .failed (hsame none) rfl fun h => hfails (congrArg _ h)
    · rw [Outcome.andThen_ok]
      dsimp only
      cases hrows : a'.rows with
      | error cause =>
        exact .failed (hsame none) rfl fun h =>
          ne_noSuchElement a'.rows_fails.proper.inner (h ▸ hrows)
      | ok results => exact (ih _ e').of_same (hsame (some results)) rfl

theorem made_insert (child : Operator) (e : Engine) :
    (insert db tx table tableSchema child false c).Made
      ((insert db tx table tableSchema child false c).fetch (n + 1) e) := by
  obtain ⟨hfresh, hfails⟩ := Handed.drain (Made.handed ih) (takeInsert db tx table tableSchema)
    (fun _ _ e => ne_noSuchElement (Outcome.andThen_fails
      (Store.insertRow_fails (e.store db) tx _ table) fun _ _ => .ok _)) n 0 child e
  rw [fetch]
  generalize drainWith (pullWith (fetch n)) (takeInsert db tx table tableSchema) n 0 child e = o
    at hfresh hfails ⊢
  have hsame : ∀ done, (insert db tx table tableSchema o.2.1 done c).fresh =
      (insert db tx table tableSchema child false c).fresh := fun _ =>
    congrArg (insert db tx table tableSchema · false {}) hfresh
  obtain ⟨cause | count, child', e'⟩ := o
  · exact .failed (hsame false) rfl fun h => hfails (congrArg _ h)
  · exact .gave (hsame true) rfl

theorem made_delete (child : Operator) (e : Engine) :
    (delete db tx child false c).Made ((delete db tx child false c).fetch (n + 1) e) := by
  obtain ⟨hfresh, hfails⟩ := Handed.drain (Made.handed ih) (takeDelete db tx)
    (fun _ row e => ne_noSuchElement (Outcome.andThen_fails
      (Store.deleteRow_fails (e.store db) tx row).inner fun _ _ => .ok _)) n 0 child e
  rw [fetch]
  generalize drainWith (pullWith (fetch n)) (takeDelete db tx) n 0 child e = o at hfresh hfails ⊢
  have hsame : ∀ done, (delete db tx o.2.1 done c).fresh = (delete db tx child false c).fresh :=
    fun _ => congrArg (delete db tx · false {}) hfresh
  obtain ⟨cause | count, child', e'⟩ := o
  · exact .failed (hsame false) rfl fun h => hfails (congrArg _ h)
  · exact .gave (hsame true) rfl

end Steps

/-- Every pull leaves the operator the same one, and its cursor as it is. If there is no row, the
operator is at its end. -/
theorem fetch_made (n : Nat) (op : Operator) (e : Engine) : op.Made (op.fetch n e) := by
  induction n generalizing op e with
  | zero => exact .failed rfl rfl nofun
  | succ n ih =>
    match op with
    | rows _ _ [] _ => exact .gave_none rfl rfl rfl
    | rows _ _ (_ :: _) _ => exact .gave rfl rfl
    | scan _ _ label _ place _ => exact made_scan n label place e
    | filter _ child _ => exact made_filter ih child e
    | nestedLoop _ _ left right _ none _ => exact made_loop_none ih left right e
    | nestedLoop _ _ left right _ (some l) _ => exact made_loop_some ih left right l e
    | hashJoin _ _ left right _ none pending _ => exact made_hash_none ih left right pending e
    | hashJoin _ _ left right _ (some table) pending _ =>
      exact made_hash_some ih left right table pending e
    | aggregate _ _ _ child _ none _ => exact made_aggregate_none ih child e
    | aggregate _ _ _ _ _ (some []) _ => exact .gave_none rfl rfl rfl
    | aggregate _ _ _ _ _ (some (_ :: _)) _ => exact .gave rfl rfl
    | insert _ _ _ _ _ true _ => exact .gave_none rfl rfl rfl
    | insert _ _ _ _ child false _ => exact made_insert ih child e
    | delete _ _ _ true _ => exact .gave_none rfl rfl rfl
    | delete _ _ child false _ => exact made_delete ih child e

theorem pull_handed (n : Nat) (op : Operator) (e : Engine) : op.Handed (op.pull n e) :=
  Made.handed (fetch_made n) op e

/-- A pull that came to an answer leaves the cursor ready. -/
theorem ready_of_pull {row : Option Tuple} (h : op.pull n e = (.ok row, s)) :
    s.1.cursor = .ready := by
  have hhanded := pull_handed n op e
  rw [h] at hhanded
  exact (hhanded.ready rfl).2

/-- A pull that found no row leaves the operator at its end. -/
theorem atEnd_of_pull (h : op.pull n e = (.ok none, s)) : s.1.AtEnd := by
  have hhanded := pull_handed n op e
  rw [h] at hhanded
  exact hhanded.ended rfl

end Operator

end Rowstore
