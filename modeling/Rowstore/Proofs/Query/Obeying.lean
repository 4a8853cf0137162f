import Mathlib
import Rowstore.Proofs.Query.Prospect

/-!
# Pulls in any state

What every pull of an operator comes to, in whatever state it is, as long as its tables are only
read: `Operator.obeys`. The row that is pulled is the first that the prospect says, and what is said
from there on is the prospect afterwards. If there are no tables, then a pull fails only where the
prospect says so, and for the cause that it says.

It is proved for each kind of operator from the same about its children, by induction on what comes
from them.
-/

namespace Rowstore

namespace Operator

variable {allOpen : Prop} {e e' : Engine} {op op' op'' child left right : Operator}

/-- Every join by a table can take all its left rows, when the tree is new. -/
def Keyed (e : Engine) : Operator → Prop
  | rows .. | scan .. => True
  | filter _ child _ | aggregate _ _ _ child _ _ _ => child.Keyed e
  | nestedLoop _ _ left right _ _ _ => left.Keyed e ∧ right.Keyed e
  | hashJoin _ p left right _ _ _ _ => left.Keyed e ∧ right.Keyed e ∧
      ∃ table, (left.course e).foldM (addKeyed p.left) [] = .ok table
  | insert .. | delete .. => False

theorem keyed_fresh (op : Operator) : op.fresh.Keyed e ↔ op.Keyed e := by
  induction op with
  | filter p child c ih => exact ih
  | nestedLoop planned p left right schema current c ihl ihr => exact and_congr ihl ihr
  | hashJoin planned p left right schema table pending c ihl ihr =>
    rw [fresh, Keyed, Keyed, ihl, ihr, course_fresh]
  | aggregate column group fn child schema results c ih => exact ih
  | _ => rfl

theorem keyed_congr (h : op'.fresh = op.fresh) : op'.Keyed e ↔ op.Keyed e := by
  rw [← keyed_fresh op', h, keyed_fresh]

/-! ### What a pull comes to -/

/-- An operator has gone on, and gives the same rows when it is sent back. -/
structure Follows (allOpen : Prop) (e : Engine) (op op' : Operator) : Prop where
  fresh_eq : op'.fresh = op.fresh
  again_eq : (op'.prospect e).again = (op.prospect e).again
  steady : op.Steady allOpen e → op'.Steady allOpen e

/-- An operator is left by a pull that fails. -/
structure Fails (allOpen : Prop) (e : Engine) (op op' : Operator) : Prop where
  fresh_eq : op'.fresh = op.fresh
  steady : allOpen → op.InMemory → op.Keyed e → op.Steady allOpen e → op'.Steady allOpen e

/-- What is said to come if a pull gives a row, or none, and leaves something to come. -/
def afterRow (row : Option Tuple) (rest : Feed) : Feed :=
  match row with
  | none => .ended
  | some t => .row t rest

/-- What a pull comes to. -/
def Met (allOpen : Prop) (e : Engine) (op : Operator) : Pulled (Option Tuple) → Prop
  | (.error cause, op', e') => e.Reads e' ∧ op.Fails allOpen e op' ∧
      (op.InMemory → (op.prospect e).now = .failed cause)
  | (.ok row, op', e') => e.Reads e' ∧ op.Follows allOpen e op' ∧
      (op.prospect e).now = afterRow row (op'.prospect e).now

/-- All states of an operator obey their prospects. -/
def Obeys (allOpen : Prop) (e : Engine) (op : Operator) : Prop :=
  ∀ ⦃op' : Operator⦄ ⦃e' : Engine⦄, op'.fresh = op.fresh → e.Reads e' →
    Settles (fun n => op'.pull n e') (op'.Met allOpen e)

theorem Follows.refl (op : Operator) : op.Follows allOpen e op := ⟨rfl, rfl, id⟩

theorem Follows.trans (h : op.Follows allOpen e op') (h' : op'.Follows allOpen e op'') :
    op.Follows allOpen e op'' :=
  ⟨h'.fresh_eq.trans h.fresh_eq, h'.again_eq.trans h.again_eq, fun hop => h'.steady (h.steady hop)⟩

theorem Follows.fails (h : op.Follows allOpen e op') : op.Fails allOpen e op' :=
  ⟨h.fresh_eq, fun _ _ _ => h.steady⟩

theorem Follows.then_fails (h : op.Follows allOpen e op') (h' : op'.Fails allOpen e op'') :
    op.Fails allOpen e op'' where
  fresh_eq := h'.fresh_eq.trans h.fresh_eq
  steady := fun hopen hmemory hkeyed hop => h'.steady hopen
    ((inMemory_congr h.fresh_eq).2 hmemory) ((keyed_congr h.fresh_eq).2 hkeyed) (h.steady hop)

/-- What a pull comes to from a later state is what it comes to if the same is to come. -/
theorem Met.of_follows (h : op.Follows allOpen e op')
    (hnow : (op'.prospect e).now = (op.prospect e).now) {o : Pulled (Option Tuple)}
    (ho : op'.Met allOpen e o) : op.Met allOpen e o := by
  obtain ⟨cause | row, op'', e'⟩ := o
  · obtain ⟨he, hfails, hcause⟩ := ho
    exact ⟨he, h.then_fails hfails,
      fun hmemory => hnow.symm.trans (hcause ((inMemory_congr h.fresh_eq).2 hmemory))⟩
  · obtain ⟨he, hfollows, hrow⟩ := ho
    exact ⟨he, h.trans hfollows, hnow.symm.trans hrow⟩

/-! ### Behind the cursor -/

/-- The prospect of an operator is that behind its cursor. -/
theorem prospect_eq_behind (e : Engine) (op : Operator) :
    op.prospect e = ((op.mapCursor fun _ => .ready).prospect e).behind op.cursor := by
  cases op <;> rfl

theorem prospect_of_closed (h : op.cursor.isOpen = false) (e : Engine) :
    (op.prospect e).now = .failed .operatorNotOpen := by
  rw [prospect_eq_behind, Prospect.behind, Feed.behind, h]
  rfl

theorem Steady.mapCursor (h : op.Steady allOpen e) {change : Cursor → Cursor}
    (hchange : (change op.cursor).isOpen = op.cursor.isOpen) :
    (op.mapCursor change).Steady allOpen e := by
  cases op with
  | rows | scan => exact fun hopen => hchange.trans (h hopen)
  | filter | nestedLoop | hashJoin | aggregate =>
    exact ⟨fun hopen => hchange.trans (h.1 hopen), h.2⟩
  | insert | delete => exact h.elim

/-- The row that was looked at comes first. -/
theorem prospect_of_peeked {row : Tuple} (hopen : op.cursor.isOpen = true)
    (hpeeked : op.cursor.peeked = some row) (e : Engine) :
    op.prospect e = ⟨.row row (op.clear.prospect e).now, (op.clear.prospect e).again⟩ := by
  have hclear : op.clear.mapCursor (fun _ => .ready) = op.mapCursor fun _ => .ready :=
    mapCursor_mapCursor _ _ op
  rw [prospect_eq_behind e op.clear, prospect_eq_behind e op, hclear, clear, cursor_mapCursor]
  generalize (op.mapCursor fun _ => .ready).prospect e = x
  generalize op.cursor = c at hopen hpeeked
  obtain ⟨isOpen, peeked⟩ := c
  obtain rfl : isOpen = true := hopen
  obtain rfl : peeked = some row := hpeeked
  rfl

theorem Follows.clear (hopen : op.cursor.isOpen = true) {row : Tuple}
    (hpeeked : op.cursor.peeked = some row) : op.Follows allOpen e op.clear where
  fresh_eq := fresh_mapCursor _ op
  again_eq := by rw [prospect_of_peeked hopen hpeeked]
  steady := fun h => h.mapCursor rfl

/-- An operator obeys if it does where the next row has to be made. -/
theorem obeys_of_fetch
    (h : ∀ {op' : Operator} {e' : Engine}, op'.fresh = op.fresh → op'.cursor = .ready →
      e.Reads e' → Settles (fun n => op'.fetch n e') (op'.Met allOpen e)) :
    op.Obeys allOpen e := by
  intro op' e' hfresh he
  unfold pull pullWith
  split_ifs with hopen
  · split
    · rename_i row hpeeked
      refine .ok ⟨he, .clear hopen hpeeked, ?_⟩
      rw [prospect_of_peeked hopen hpeeked]
      rfl
    · rename_i hpeeked
      refine h hfresh ?_ he
      generalize op'.cursor = c at hopen hpeeked
      obtain ⟨isOpen, peeked⟩ := c
      obtain rfl : isOpen = true := hopen
      obtain rfl : peeked = none := hpeeked
      rfl
  · refine .at_once nofun ⟨he, (Follows.refl op').fails, fun _ => ?_⟩
    exact prospect_of_closed (Bool.eq_false_iff.2 hopen) e

/-! ### Taking all rows -/

/-- What it comes to that all rows of an operator are taken into something. -/
def Gathered {σ : Type} (allOpen : Prop) (e : Engine) (op : Operator)
    (take : σ → Tuple → Except DbError σ) (state : σ) : Pulled σ → Prop
  | (.error cause, op', e') => e.Reads e' ∧ op.Fails allOpen e op' ∧
      (op.InMemory → (op.prospect e).now.foldM take state = .error cause)
  | (.ok result, op', e') => e.Reads e' ∧ op.Follows allOpen e op' ∧
      (op.prospect e).now.foldM take state = .ok result

/-- All rows that come are taken, unless one of them cannot be. -/
theorem Obeys.drain {σ : Type} (h : op.Obeys allOpen e) {take : σ → Tuple → Except DbError σ}
    {takeFrom : σ → Tuple → Engine → Outcome Engine σ}
    (hfrom : ∀ state row e', takeFrom state row e' =
      Outcome.ofExcept e' ((take state row).map fun state => (state, e')))
    (hfails : ∀ state row, FailsOnly DbError.isProper (take state row))
    (hfresh : op'.fresh = op.fresh)
    (he : e.Reads e') (state : σ) :
    Settles (fun n => drainWith (Operator.pull n) takeFrom n state op' e')
      (op'.Gathered allOpen e take state) := by
  -- every row that is pulled makes what is still to come smaller, whatever state it leaves
  induction hsize : (op'.prospect e).now.size using Nat.strong_induction_on
    generalizing op' e' state with
  | _ size ih =>
    refine (h hfresh he).drain ?_ ?_ ?_
    · rintro cause ⟨op'', e''⟩ ⟨he', hleft, hcause⟩
      refine ⟨he', hleft, fun hmemory => ?_⟩
      rw [hcause hmemory]
      rfl
    · rintro op'' e'' ⟨he', hfollows, hnow⟩
      refine ⟨he', hfollows, ?_⟩
      rw [hnow]
      rfl
    · rintro row op'' e'' ⟨he', hfollows, hnow⟩
      have hfold : (op'.prospect e).now.foldM take state =
          take state row >>= fun state => (op''.prospect e).now.foldM take state := by
        rw [hnow]
        rfl
      simp only [hfrom]
      cases htake : take state row with
      | error cause =>
        rw [htake] at hfold
        exact .at_once (.error (hfails state row cause htake))
          ⟨he', hfollows.fails, fun _ => hfold⟩
      | ok state' =>
        rw [htake] at hfold
        refine (ih _ (hsize ▸ Feed.size_lt hnow) (hfollows.fresh_eq.trans hfresh) he' state'
          rfl).mono ?_
        rintro ⟨cause | result, op₃, e₃⟩ ⟨he₃, hstate, hresult⟩
        · exact ⟨he₃, hfollows.then_fails hstate, fun hmemory =>
            hfold.trans (hresult ((inMemory_congr hfollows.fresh_eq).2 hmemory))⟩
        · exact ⟨he₃, hfollows.trans hstate, hfold.trans hresult⟩

/-! ### Leaves -/

section Leaves

variable {schema : Schema} {all rest : List Tuple} {c : Cursor} {db : Nat} {table : TableId}
  {label : String} {place : Scan}

theorem obeys_rows : (rows schema all rest c).Obeys allOpen e := by
  refine obeys_of_fetch fun {op'} {e'} hfresh hready he => ?_
  obtain ⟨rest, c, rfl⟩ := fresh_eq_rows hfresh
  obtain rfl : c = .ready := hready
  refine .of_succ ?_
  cases rest with
  | nil => exact .ok ⟨he, .refl _, rfl⟩
  | cons row rest => exact .ok ⟨he, ⟨rfl, rfl, id⟩, rfl⟩

theorem obeys_scan (hop : (scan db table label schema place c).Readable e) :
    (scan db table label schema place c).Obeys allOpen e := by
  refine obeys_of_fetch fun {op'} {e'} hfresh hready he => ?_
  have hreadable := (readable_congr hfresh).2 hop
  obtain ⟨place, c, rfl⟩ := fresh_eq_scan hfresh
  obtain rfl : c = .ready := hready
  obtain ⟨hfile, hcurrent⟩ := hreadable
  obtain rfl := Catalog.table_of_file hfile
  have hpaging := place.hasNext_fails (e'.store db)
  have hacquires := place.acquires_hasNext (e'.store db)
  have hplace := place.fresh_hasNext (e'.store db)
  refine .of_succ ?_
  simp only [Operator.fetch]
  cases hrest : place.rest with
  | none =>
    -- a closed scan has no rows
    have hmore : place.hasNext (e'.store db) = (.ok false, place, e'.store db) := by
      unfold Scan.hasNext
      rw [hrest]
    simp only [hmore, Engine.setStore_store]
    refine .ok ⟨he, .refl _, ?_⟩
    simp only [prospect, scanFeed, hrest]
    rfl
  | some rows =>
    generalize hmore : place.hasNext (e'.store db) = o at hpaging hacquires hplace ⊢
    obtain ⟨cause | more, place', s⟩ := o
    · have hreads := he.setStore (Engine.lt_of_file hfile) ((he.store db).trans hacquires.reads)
      exact .at_once (.error (DbError.isProper_of_isPaging (hpaging cause rfl)))
        ⟨hreads, ⟨fresh_scan_congr hplace, fun _ hmemory => hmemory.elim⟩, False.elim⟩
    · obtain ⟨hreads, hfresh', hsame, rows', hrest', hrows, hend⟩ :=
        (he.store db).hasNext hcurrent (by rw [hrest]; rfl) hmore
      have he' := he.setStore (Engine.lt_of_file hfile) hreads
      cases more with
      | false =>
        have hnone : (e.store db).remaining place = [] := by simpa using hend
        refine .ok ⟨he', ⟨fresh_scan_congr hfresh', rfl, id⟩, ?_⟩
        simp only [prospect, scanFeed, hrest, hnone]
        rfl
      | true =>
        obtain ⟨row, rest, rfl⟩ := List.exists_cons_of_ne_nil (hrows.1 rfl)
        simp only [Scan.next_of_rest hrest']
        refine .ok ⟨he', ⟨fresh_scan_congr hfresh', rfl, id⟩, ?_⟩
        simp only [prospect, scanFeed, hrest, ← hsame]
        rw [Store.remaining, Store.remaining, hrest']
        rfl

end Leaves

/-! ### Filters -/

section Filters

variable {p : Predicate} {c : Cursor} {child' : Operator}

theorem Fails.filter (h : child.Fails allOpen e child') :
    (filter p child c).Fails allOpen e (filter p child' c) where
  fresh_eq := congrArg (Operator.filter p · {}) h.fresh_eq
  steady := fun hopen hmemory hkeyed hop => ⟨hop.1, h.steady hopen hmemory hkeyed hop.2⟩

theorem Follows.filter (h : child.Follows allOpen e child') :
    (filter p child .ready).Follows allOpen e (filter p child' .ready) where
  fresh_eq := congrArg (Operator.filter p · {}) h.fresh_eq
  again_eq := congrArg (Feed.filter p) h.again_eq
  steady := fun hop => ⟨hop.1, h.steady hop.2⟩

/-- A filter passes over the rows that it does not want. -/
theorem Obeys.filter (h : child.Obeys allOpen e) : (filter p child c).Obeys allOpen e := by
  refine obeys_of_fetch fun {op'} {e'} hfresh hready he => ?_
  obtain ⟨child', c, rfl, hchild⟩ := fresh_eq_filter hfresh
  obtain rfl : c = .ready := hready
  clear hfresh
  induction hsize : (child'.prospect e).now.size using Nat.strong_induction_on
    generalizing child' e' with
  | _ size ih =>
    have hnow : ((Operator.filter p child' .ready).prospect e).now =
      (child'.prospect e).now.filter p := rfl
    refine .of_succ ?_
    simp only [Operator.fetch]
    refine (h hchild he).andThen ?_ ?_
    · rintro cause ⟨child'', e''⟩ ⟨he', hfails, hcause⟩
      refine ⟨he', hfails.filter, fun hmemory => ?_⟩
      rw [hnow, hcause hmemory]
      rfl
    · rintro row ⟨child'', e''⟩ ⟨he', hfollows, hrow⟩
      have hfilter := hfollows.filter (p := p)
      rw [hrow] at hnow
      cases row with
      | none => exact .ok ⟨he', hfilter, hnow⟩
      | some row =>
        cases hholds : p.holds row with
        | error cause =>
          simp only [hholds]
          refine .at_once (.error ((p.holds_fails row).proper cause hholds))
            ⟨he', hfilter.fails, fun _ => ?_⟩
          rw [hnow]
          simp only [afterRow, Feed.filter, hholds]
        | ok holds =>
          simp only [hholds]
          cases holds with
          | true =>
            refine .ok ⟨he', hfilter, ?_⟩
            rw [hnow]
            simp only [afterRow, Feed.filter, hholds]
            rfl
          | false =>
            refine (ih _ (hsize ▸ Feed.size_lt hrow) he' _ (hfollows.fresh_eq.trans hchild)
              rfl).mono fun o => Met.of_follows hfilter ?_
            rw [hnow]
            simp only [afterRow, Feed.filter, hholds]
            rfl

end Filters

/-! ### Nested loops -/

section Loops

variable {planned : Bool} {p : JoinPredicate} {schema : Schema} {current : Option Tuple}
  {c : Cursor} {left' right' : Operator} {l : Tuple}

theorem Fails.loop (hl : left.Fails allOpen e left') (hr : right.Fails allOpen e right')
    {next : Option Tuple} : (nestedLoop planned p left right schema current c).Fails allOpen e
      (nestedLoop planned p left' right' schema next c) where
  fresh_eq := congrArg₂ (nestedLoop planned p · · schema none {}) hl.fresh_eq hr.fresh_eq
  steady := fun hopen hmemory hkeyed hop => ⟨hop.1,
    hl.steady hopen hmemory.1 hkeyed.1 hop.2.1, hr.steady hopen hmemory.2 hkeyed.2 hop.2.2⟩

theorem Follows.loop (hl : left.Follows allOpen e left') (hr : right.Follows allOpen e right')
    {next : Option Tuple} :
    (nestedLoop planned p left right schema current .ready).Follows allOpen e
      (nestedLoop planned p left' right' schema next .ready) where
  fresh_eq := congrArg₂ (nestedLoop planned p · · schema none {}) hl.fresh_eq hr.fresh_eq
  again_eq := by
    show Feed.loop p (right'.prospect e).again (right'.prospect e).again (left'.prospect e).again =
      Feed.loop p (right.prospect e).again (right.prospect e).again (left.prospect e).again
    rw [hl.again_eq, hr.again_eq]
  steady := fun hop => ⟨hop.1, hl.steady hop.2.1, hr.steady hop.2.2⟩

/-- When the right rows have come to their end, the right child is sent back, and the loop goes on
without a left row. -/
theorem Follows.fetch_loop_back (hfollows : right.Follows allOpen e right')
    (hend : (right.prospect e).now = .ended) (hop : right'.Readable e) (he : e.Reads e')
    (hnone : ∀ {right'' : Operator} {e'' : Engine}, right''.fresh = right'.fresh → e.Reads e'' →
      Settles (fun n => (nestedLoop planned p left right'' schema none .ready).fetch n e'')
        ((nestedLoop planned p left right'' schema none .ready).Met allOpen e)) :
    Settles (fun n => (right'.rewind e').andThen
        (under (nestedLoop planned p left · schema (some l) .ready)) fun _ (right, e) =>
          (nestedLoop planned p left right schema none .ready).fetch n e)
      ((nestedLoop planned p left right schema (some l) .ready).Met allOpen e) := by
  have hrewound := rewound allOpen hop he
  have hfresh := right'.fresh_rewind e'
  have hfails := right'.rewind_fails e'
  generalize right'.rewind e' = o at hrewound hfresh hfails ⊢
  obtain ⟨cause | u, right'', e''⟩ := o
  · -- only a tree with a scan cannot be sent back
    obtain ⟨he', hmemory⟩ := hrewound
    rw [inMemory_congr hfollows.fresh_eq] at hmemory
    have hpaging : cause.isPaging := hfails cause rfl
    refine .at_once ?_ ⟨he', ?_, fun h => absurd h.2 hmemory⟩
    · rintro ⟨⟩
      cases hpaging
    · exact (Follows.refl left).fails.loop
        ⟨hfresh.trans hfollows.fresh_eq, fun _ h => absurd h hmemory⟩
  · obtain ⟨he', -, hprospect, hsteady⟩ := hrewound
    have hback : right.Follows allOpen e right'' :=
      hfollows.trans ⟨hfresh, by rw [hprospect], hsteady⟩
    refine (hnone hfresh he').mono fun o => Met.of_follows ((Follows.refl left).loop hback) ?_
    show Feed.loop p (right''.prospect e).again (right''.prospect e).now (left.prospect e).now =
      Feed.pairs p l (Feed.loop p (right.prospect e).again (right.prospect e).again
        (left.prospect e).now) (right.prospect e).now
    rw [hprospect, hend, hfollows.again_eq]
    rfl

/-- A left row is matched with the right rows that come; then the right child is sent back, and the
next left row is taken. -/
theorem Obeys.fetch_loop_some (hr : right.Obeys allOpen e) (hop : right.Readable e)
    (hright : right'.fresh = right.fresh) (he : e.Reads e')
    (hnone : ∀ {right' : Operator} {e' : Engine}, right'.fresh = right.fresh → e.Reads e' →
      Settles (fun n => (nestedLoop planned p left' right' schema none .ready).fetch n e')
        ((nestedLoop planned p left' right' schema none .ready).Met allOpen e)) :
    Settles (fun n => (nestedLoop planned p left' right' schema (some l) .ready).fetch n e')
      ((nestedLoop planned p left' right' schema (some l) .ready).Met allOpen e) := by
  induction hsize : (right'.prospect e).now.size using Nat.strong_induction_on
    generalizing right' e' with
  | _ size ih =>
    have hnow : ((nestedLoop planned p left' right' schema (some l) .ready).prospect e).now =
      Feed.pairs p l (Feed.loop p (right'.prospect e).again (right'.prospect e).again
        (left'.prospect e).now) (right'.prospect e).now := rfl
    refine .of_succ ?_
    simp only [Operator.fetch]
    refine (hr hright he).andThen ?_ ?_
    · rintro cause ⟨right'', e''⟩ ⟨he', hfails, hcause⟩
      refine ⟨he', (Follows.refl left').fails.loop hfails, fun hmemory => ?_⟩
      rw [hnow, hcause hmemory.2]
      rfl
    · rintro row ⟨right'', e''⟩ ⟨he', hfollows, hrow⟩
      have hloop : ∀ {next}, (nestedLoop planned p left' right' schema (some l) .ready).Follows
          allOpen e (nestedLoop planned p left' right'' schema next .ready) :=
        (Follows.refl left').loop hfollows
      have hright' := hfollows.fresh_eq.trans hright
      rw [hrow] at hnow
      cases row with
      | none =>
        exact hfollows.fetch_loop_back hrow ((readable_congr hright').2 hop) he'
          fun hfresh => hnone (hfresh.trans hright')
      | some row =>
        cases hholds : p.holds l row with
        | error cause =>
          simp only [hholds]
          refine .at_once (.error ((p.holds_fails l row).proper cause hholds))
            ⟨he', hloop.fails, fun _ => ?_⟩
          rw [hnow]
          simp only [afterRow, Feed.pairs, hholds]
        | ok holds =>
          simp only [hholds]
          cases holds with
          | true =>
            refine .ok ⟨he', hloop, ?_⟩
            rw [hnow, ← hfollows.again_eq]
            simp only [afterRow, Feed.pairs, hholds]
            rfl
          | false =>
            refine (ih _ (hsize ▸ Feed.size_lt hrow) hright' he' rfl).mono
              fun o => Met.of_follows hloop ?_
            rw [hnow, ← hfollows.again_eq]
            simp only [afterRow, Feed.pairs, hholds]
            rfl

/-- The left rows are taken one after another. The first of them meets the right rows that come now,
and the others all of them. -/
theorem Obeys.fetch_loop_none (hl : left.Obeys allOpen e) (hr : right.Obeys allOpen e)
    (hop : right.Readable e) (hleft : left'.fresh = left.fresh)
    (hright : right'.fresh = right.fresh) (he : e.Reads e') :
    Settles (fun n => (nestedLoop planned p left' right' schema none .ready).fetch n e')
      ((nestedLoop planned p left' right' schema none .ready).Met allOpen e) := by
  induction hsize : (left'.prospect e).now.size using Nat.strong_induction_on
    generalizing left' right' e' with
  | _ size ih =>
    have hnow : ((nestedLoop planned p left' right' schema none .ready).prospect e).now =
      Feed.loop p (right'.prospect e).again (right'.prospect e).now (left'.prospect e).now := rfl
    refine .of_succ ?_
    simp only [Operator.fetch]
    refine (hl hleft he).andThen ?_ ?_
    · rintro cause ⟨left'', e''⟩ ⟨he', hfails, hcause⟩
      refine ⟨he', hfails.loop (Follows.refl right').fails, fun hmemory => ?_⟩
      rw [hnow, hcause hmemory.1]
      rfl
    · rintro row ⟨left'', e''⟩ ⟨he', hfollows, hrow⟩
      have hloop : ∀ {next}, (nestedLoop planned p left' right' schema none .ready).Follows
          allOpen e (nestedLoop planned p left'' right' schema next .ready) :=
        hfollows.loop (Follows.refl right')
      rw [hrow] at hnow
      cases row with
      | none => exact .ok ⟨he', hloop, hnow⟩
      | some row =>
        have hstarted : (nestedLoop planned p left' right' schema none .ready).Follows allOpen e
          (nestedLoop planned p left'' right' schema (some row) .ready) := hloop
        refine Settles.mono (hr.fetch_loop_some hop hright he' fun hright he =>
          ih _ (hsize ▸ Feed.size_lt hrow) (hfollows.fresh_eq.trans hleft) hright he rfl)
          fun o => Met.of_follows hstarted ?_
        rw [hnow]
        rfl

theorem Obeys.loop (hl : left.Obeys allOpen e) (hr : right.Obeys allOpen e)
    (hop : right.Readable e) :
    (nestedLoop planned p left right schema current c).Obeys allOpen e := by
  refine obeys_of_fetch fun {op'} {e'} hfresh hready he => ?_
  obtain ⟨left', right', current, c, rfl, hleft, hright⟩ := fresh_eq_loop hfresh
  obtain rfl : c = .ready := hready
  cases current with
  | none => exact hl.fetch_loop_none hr hop hleft hright he
  | some l =>
    exact hr.fetch_loop_some hop hright he
      fun hright he => hl.fetch_loop_none hr hop hleft hright he

end Loops

/-! ### Joins by a table -/

section Hashes

variable {planned : Bool} {p : JoinPredicate} {schema : Schema}
  {table : Option (List (Value × Tuple))} {pending pending' : List Tuple} {c : Cursor}
  {left' right' : Operator}

theorem Fails.hash (hr : right.Fails allOpen e right') :
    (hashJoin planned p left right schema table pending c).Fails allOpen e
      (hashJoin planned p left right' schema table pending' c) where
  fresh_eq := congrArg (hashJoin planned p left.fresh · schema none [] {}) hr.fresh_eq
  steady := fun hopen hmemory hkeyed hop => ⟨hop.1, hop.2.1,
    hr.steady hopen hmemory.2 hkeyed.2.1 hop.2.2.1, hop.2.2.2⟩

theorem Follows.hash (hr : right.Follows allOpen e right') :
    (hashJoin planned p left right schema table pending .ready).Follows allOpen e
      (hashJoin planned p left right' schema table pending' .ready) where
  fresh_eq := congrArg (hashJoin planned p left.fresh · schema none [] {}) hr.fresh_eq
  again_eq := congrArg (fun right : Feed => Feed.given
    (Prospect.entries p table (left.prospect e).now) fun table => right.probe p table) hr.again_eq
  steady := fun hop => ⟨hop.1, hop.2.1, hr.steady hop.2.2.1, hop.2.2.2⟩

/-- The left rows that a steady join takes are all that come from a new left child. -/
theorem Steady.now_left
    (hop : (hashJoin planned p left right schema none pending c).Steady allOpen e)
    {entries : List (Value × Tuple)}
    (hentries : (left.prospect e).now.foldM (addKeyed p.left) [] = .ok entries) :
    (left.course e).foldM (addKeyed p.left) [] = .ok entries := by
  obtain ⟨-, -, -, hleft⟩ := hop
  cases hopen : left.cursor.isOpen with
  | false =>
    -- a closed child refuses, so nothing was taken from it
    rw [prospect_of_closed hopen] at hentries
    cases hentries
  | true => rw [← hleft hopen, hentries]

/-- A join with its table made of all left rows. -/
theorem Follows.hash_table (hl : left.Follows allOpen e left') {entries : List (Value × Tuple)}
    (hentries : (left.prospect e).now.foldM (addKeyed p.left) [] = .ok entries) :
    (hashJoin planned p left right schema none pending .ready).Follows allOpen e
      (hashJoin planned p left' right schema (some entries) pending .ready) where
  fresh_eq := congrArg (hashJoin planned p · right.fresh schema none [] {}) hl.fresh_eq
  again_eq := (congrArg (Feed.given · fun table => (right.prospect e).again.probe p table)
    hentries).symm
  steady := fun hop => ⟨hop.1, hl.steady hop.2.1, hop.2.2.1,
    course_congr hl.fresh_eq ▸ hop.now_left hentries⟩

/-- A join that cannot make its table. In memory this does not befall it while it is steady, if its
left rows can be taken. -/
theorem Fails.hash_table (hl : left.Fails allOpen e left') {cause : DbError}
    (hcause : left.InMemory → (left.prospect e).now.foldM (addKeyed p.left) [] = .error cause) :
    (hashJoin planned p left right schema none pending c).Fails allOpen e
      (hashJoin planned p left' right schema none pending c) where
  fresh_eq := congrArg (hashJoin planned p · right.fresh schema none [] {}) hl.fresh_eq
  steady := by
    rintro hopen ⟨hmemory, -⟩ ⟨-, -, table, htable⟩ ⟨-, hsteady, -, hnow⟩
    -- all rows of the left child were still to come, and they can be taken
    rw [← hnow (hsteady.isOpen hopen), hcause hmemory] at htable
    cases htable

/-- With the left rows in a table, the rows that wait are given, and then the next right row is
looked up. -/
theorem Obeys.fetch_hash_some (hr : right.Obeys allOpen e) (hright : right'.fresh = right.fresh)
    (he : e.Reads e') {entries : List (Value × Tuple)} :
    Settles (fun n =>
        (hashJoin planned p left' right' schema (some entries) pending .ready).fetch n e')
      ((hashJoin planned p left' right' schema (some entries) pending .ready).Met allOpen e) := by
  induction hsize : (right'.prospect e).now.size using Nat.strong_induction_on
    generalizing right' pending e' with
  | _ size ih =>
    refine .of_succ ?_
    cases pending with
    | cons row pending => exact .ok ⟨he, (Follows.refl right').hash, rfl⟩
    | nil =>
      have hnow : ((hashJoin planned p left' right' schema (some entries) [] .ready).prospect e).now
        = (right'.prospect e).now.probe p entries := rfl
      simp only [Operator.fetch]
      refine (hr hright he).andThen ?_ ?_
      · rintro cause ⟨right'', e''⟩ ⟨he', hfails, hcause⟩
        refine ⟨he', hfails.hash, fun hmemory => ?_⟩
        rw [hnow, hcause hmemory.2]
        rfl
      · rintro row ⟨right'', e''⟩ ⟨he', hfollows, hrow⟩
        rw [hrow] at hnow
        cases row with
        | none => exact .ok ⟨he', hfollows.hash, hnow⟩
        | some probe =>
          cases hfield : probe.field p.right with
          | error cause =>
            simp only [hfield]
            refine .at_once (.error ((probe.field_fails p.right).proper cause hfield))
              ⟨he', hfollows.hash.fails, fun _ => ?_⟩
            rw [hnow]
            simp only [afterRow, Feed.probe, hfield]
          | ok key =>
            simp only [hfield]
            refine (ih _ (hsize ▸ Feed.size_lt hrow) (hfollows.fresh_eq.trans hright) he' rfl).mono
              fun o => Met.of_follows hfollows.hash ?_
            rw [hnow]
            simp only [afterRow, Feed.probe, hfield]
            rfl

/-- A join by a table makes it of the left rows that come, unless it has one. -/
theorem Obeys.hash (hl : left.Obeys allOpen e) (hr : right.Obeys allOpen e) :
    (hashJoin planned p left right schema table pending c).Obeys allOpen e := by
  refine obeys_of_fetch fun {op'} {e'} hfresh hready he => ?_
  obtain ⟨left', right', table, pending, c, rfl, hleft, hright⟩ := fresh_eq_hash hfresh
  obtain rfl : c = .ready := hready
  cases table with
  | some entries => exact hr.fetch_hash_some hright he
  | none =>
    have hnow : ((hashJoin planned p left' right' schema none pending .ready).prospect e).now =
      Feed.given ((left'.prospect e).now.foldM (addKeyed p.left) []) fun table =>
        Feed.prepend pending ((right'.prospect e).now.probe p table) := rfl
    refine .of_succ ?_
    simp only [Operator.fetch]
    refine (hl.drain (takeKeyed_eq p.left)
      (fun table row => ((row.field_fails p.left).map _).proper) hleft he []).andThen ?_ ?_
    · rintro cause ⟨left'', e''⟩ ⟨he', hfails, hcause⟩
      refine ⟨he', hfails.hash_table hcause, fun hmemory => ?_⟩
      rw [hnow, hcause hmemory.1]
      rfl
    · rintro entries ⟨left'', e''⟩ ⟨he', hfollows, hentries⟩
      refine (hr.fetch_hash_some hright he').mono
        fun o => Met.of_follows (hfollows.hash_table hentries) ?_
      rw [hnow, hentries]
      rfl

end Hashes

/-! ### Aggregates -/

section Aggregates

variable {column : Nat} {group : Option Nat} {fn : AggregateFunction} {schema : Schema}
  {results results' : Option (List Tuple)} {c : Cursor} {child' : Operator}

theorem Fails.aggregate (h : child.Fails allOpen e child') :
    (aggregate column group fn child schema results c).Fails allOpen e
      (aggregate column group fn child' schema results' c) where
  fresh_eq := congrArg (Operator.aggregate column group fn · schema none {}) h.fresh_eq
  steady := fun hopen hmemory hkeyed hop => ⟨hop.1, h.steady hopen hmemory hkeyed hop.2⟩

theorem Follows.aggregate (h : child.Follows allOpen e child') :
    (aggregate column group fn child schema results .ready).Follows allOpen e
      (aggregate column group fn child' schema results' .ready) where
  fresh_eq := congrArg (Operator.aggregate column group fn · schema none {}) h.fresh_eq
  again_eq := by
    show Feed.summed child'.schema column group fn schema (child'.prospect e).again =
      Feed.summed child.schema column group fn schema (child.prospect e).again
    rw [h.again_eq, ← schema_fresh child', h.fresh_eq, schema_fresh]
  steady := fun hop => ⟨hop.1, h.steady hop.2⟩

/-- The results of a summary are given one by one. -/
theorem settles_aggregate_some {results : List Tuple} (he : e.Reads e') :
    Settles (fun n => (aggregate column group fn child schema (some results) .ready).fetch n e')
      ((aggregate column group fn child schema (some results) .ready).Met allOpen e) := by
  refine .of_succ ?_
  cases results with
  | nil => exact .ok ⟨he, (Follows.refl child).aggregate, rfl⟩
  | cons row results => exact .ok ⟨he, (Follows.refl child).aggregate, rfl⟩

/-- An aggregate takes all rows into a summary, unless it has its results. -/
theorem Obeys.aggregate (h : child.Obeys allOpen e) :
    (aggregate column group fn child schema results c).Obeys allOpen e := by
  refine obeys_of_fetch fun {op'} {e'} hfresh hready he => ?_
  obtain ⟨child', results, c, rfl, hchild⟩ := fresh_eq_aggregate hfresh
  obtain rfl : c = .ready := hready
  cases results with
  | some results => exact settles_aggregate_some he
  | none =>
    have hnow : ((Operator.aggregate column group fn child' schema none .ready).prospect e).now =
      (child'.prospect e).now.summed child'.schema column group fn schema := rfl
    refine .of_succ ?_
    simp only [Operator.fetch]
    cases hnew : newAggregator child'.schema column group fn with
    | error cause =>
      refine .at_once (.error ((newAggregator_fails _ _ _ _).proper cause hnew))
        ⟨he, (Follows.refl child').aggregate.fails, fun _ => ?_⟩
      rw [hnow, Feed.summed, hnew]
      rfl
    | ok a =>
      rw [Feed.summed, hnew] at hnow
      refine (h.drain takeSummary_eq (fun a row => (a.merge_fails row).proper) hchild he a).andThen
        ?_ ?_
      · rintro cause ⟨child'', e''⟩ ⟨he', hfails, hcause⟩
        refine ⟨he', hfails.aggregate, fun hmemory => hnow.trans ?_⟩
        show Feed.given ((child'.prospect e).now.foldM Aggregator.merge a >>= Aggregator.rows) _ = _
        rw [hcause hmemory]
        rfl
      · rintro a' ⟨child'', e''⟩ ⟨he', hfollows, hmerged⟩
        replace hnow : _ = Feed.given
          ((child'.prospect e).now.foldM Aggregator.merge a >>= Aggregator.rows) _ := hnow
        rw [hmerged] at hnow
        cases hrows : a'.rows with
        | error cause =>
          refine .at_once (.error (a'.rows_fails.proper cause hrows))
            ⟨he', hfollows.aggregate.fails, fun _ => hnow.trans ?_⟩
          show Feed.given a'.rows _ = _
          rw [hrows]
          rfl
        | ok results =>
          refine (settles_aggregate_some he').mono
            fun o => Met.of_follows hfollows.aggregate (Eq.trans ?_ hnow.symm)
          show _ = Feed.given a'.rows _
          rw [hrows]
          rfl

end Aggregates

/-! ### Trees -/

/-- Every operator obeys its prospects, in whatever state it is. -/
theorem obeys (allOpen : Prop) (hop : op.Readable e) : op.Obeys allOpen e := by
  induction op with
  | rows => exact obeys_rows
  | scan => exact obeys_scan hop
  | filter p child c ih => exact (ih hop).filter
  | nestedLoop planned p left right schema current c ihl ihr =>
    exact (ihl hop.1).loop (ihr hop.2) hop.2
  | hashJoin planned p left right schema table pending c ihl ihr =>
    exact (ihl hop.1).hash (ihr hop.2)
  | aggregate column group fn child schema results c ih => exact (ih hop).aggregate
  | insert => exact hop.elim
  | delete => exact hop.elim

/-- What a pull comes to that has ended. -/
theorem met_of_pull (allOpen : Prop) (hop : op.Readable e) (he : e.Reads e') {n : Nat}
    {result : Except DbError (Option Tuple)} {s : Operator × Engine}
    (h : op.pull n e' = (result, s)) (hresult : result ≠ .error .unfinished) :
    op.Met allOpen e (result, s) := by
  have hmet := (obeys allOpen hop rfl he).of_finished (fun _ _ hle => pull_of_le hle op e')
    (n := n) (by rw [h]; exact hresult)
  rwa [h] at hmet

/-! ### Looking -/

variable {s : Operator × Engine} {n : Nat}

/-- The row that is put back comes first. -/
theorem prospect_setPeeked (hready : op.cursor = .ready) (row : Option Tuple) (e : Engine) :
    (op.setPeeked row).prospect e =
      ⟨.prepend row.toList (op.prospect e).now, (op.prospect e).again⟩ := by
  have hbare : (op.setPeeked row).mapCursor (fun _ => .ready) = op.mapCursor fun _ => .ready :=
    mapCursor_mapCursor _ _ op
  rw [prospect_eq_behind e (op.setPeeked row), prospect_eq_behind e op, hbare, setPeeked,
    cursor_mapCursor, hready]
  cases row <;> rfl

theorem Follows.setPeeked (hready : op.cursor = .ready) (row : Option Tuple) :
    op.Follows allOpen e (op.setPeeked row) where
  fresh_eq := fresh_mapCursor _ op
  again_eq := by rw [prospect_setPeeked hready]
  steady := fun h => h.mapCursor rfl

/-- A row that is looked at is the first that comes, and it comes still. -/
theorem met_hasNext (allOpen : Prop) (hop : op.Readable e) (he : e.Reads e') {more : Bool}
    (h : op.hasNext n e' = (.ok more, s)) :
    e.Reads s.2 ∧ op.Follows allOpen e s.1 ∧
      (op.prospect e).now = if more then (s.1.prospect e).now else .ended := by
  obtain ⟨row, op', hpull, rfl, hsame⟩ := pull_of_hasNext h
  have hready : op'.cursor = .ready := ready_of_pull hpull
  obtain ⟨he', hfollows, hnow⟩ := met_of_pull allOpen hop he hpull nofun
  refine ⟨he', hsame ▸ hfollows.trans (.setPeeked hready row), hnow.trans ?_⟩
  rw [hsame, prospect_setPeeked hready]
  cases row <;> rfl

/-! ### The end -/

/-- Nothing comes any more from an operator at its end. -/
theorem AtEnd.now_eq (h : op.AtEnd) (hready : op.cursor = .ready) (e : Engine) :
    (op.prospect e).now = .ended := by
  induction op with
  | rows schema all rest c =>
    obtain rfl : c = .ready := hready
    obtain rfl : rest = [] := h
    rfl
  | scan db table label schema place c =>
    obtain rfl : c = .ready := hready
    show scanFeed e db schema place = .ended
    unfold scanFeed
    rcases h with hrest | ⟨hrest, hpage⟩
    · rw [hrest]
    · have hnone : (e.store db).remaining place = [] := by
        rw [Store.remaining, hrest, Nat.sub_eq_zero_of_le hpage]
        rfl
      rw [hrest, hnone]
      rfl
  | filter p child c ih =>
    obtain rfl : c = .ready := hready
    show (child.prospect e).now.filter p = .ended
    rw [ih h.2 h.1]
    rfl
  | nestedLoop planned p left right schema current c ihl ihr =>
    obtain rfl : c = .ready := hready
    obtain ⟨rfl, hleft, hend⟩ := h
    show Feed.loop p (right.prospect e).again (right.prospect e).now (left.prospect e).now = .ended
    rw [ihl hend hleft]
    rfl
  | hashJoin planned p left right schema table pending c ihl ihr =>
    obtain rfl : c = .ready := hready
    obtain ⟨htable, rfl, hright, hend⟩ := h
    obtain ⟨entries, rfl⟩ := Option.isSome_iff_exists.1 htable
    show (right.prospect e).now.probe p entries = .ended
    rw [ihr hend hright]
    rfl
  | aggregate column group fn child schema results c ih =>
    obtain rfl : c = .ready := hready
    obtain rfl : results = some [] := h
    rfl
  | insert db tx table tableSchema child done c ih =>
    obtain rfl : c = .ready := hready
    rfl
  | delete db tx child done c ih =>
    obtain rfl : c = .ready := hready
    rfl

/-- Nothing comes any more after a pull that found no row. -/
theorem now_of_pull_none (e : Engine) (h : op.pull n e' = (.ok none, s)) :
    (s.1.prospect e).now = .ended :=
  (atEnd_of_pull h).now_eq (ready_of_pull h) e

end Operator

end Rowstore
